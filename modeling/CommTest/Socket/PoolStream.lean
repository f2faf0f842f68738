import CommTest.Lib.RoundRobin
import CommTest.Socket.Pool

/-!
# What the pool writes

The bytes for a connection are on their way through three places: the queue of its writer, the
message the writer is writing, and the socket; the part of a `broadcast` that has not reached the
writer yet comes behind them.

* `line s c fd` is all of that for connection `c`, oldest first. `StreamInv.push`, `StreamInv.pop`
  and `StreamInv.write` say that the pool only moves bytes along the line.
* `StreamInv` is the invariant: the line is the concatenation of the frames of the calls that target
  `c`, and every socket is in one slot of one thread.
* `outputStream_of_framesFit` is the property of the pool. It asks for messages shorter than
  `2^32 - 4` bytes: the length field of a `msg_t` wraps from there on, and
  `not_outputStream_of_wrap` is a run in which a frame is lost to it.
-/

set_option linter.unusedSectionVars false

namespace CommTest.Socket

open Mem FairQueue Lts RoundRobin

/-! ## The property -/

namespace Call

/-- The message of a call. -/
def payload : Call → Payload
  | .send _ p => p
  | .thrBroadcast _ p => p
  | .broadcast p => p

/-- The calls that target connection `c` of a pool with `n` pairs of threads. -/
def targets (n c : Nat) : Call → Bool
  | .send cliid _ => cliid = c
  | .thrBroadcast thrid _ => thrid = c % n
  | .broadcast _ => true

end Call

/-- The frames of the calls that target connection `c`, in the order of the calls. -/
def expected (n : Nat) (calls : List Call) (c : Nat) : Bytes :=
  frames ((calls.filter (Call.targets n c)).map Call.payload)

/-- **The output stream of every connection**: what has been written is a first part of the frames
of the calls that target it, and all of them once the owner is in no call, the queues are empty and
the writers idle. -/
structure OutputStream (s : Pool) : Prop where
  written : ∀ c fd, s.conns[c]? = some fd → s.out fd <+: expected s.numThrs s.calls c
  complete : s.owner = .idle → (∀ i, (s.wthrinfo i).msgq = []) →
    (∀ i fd rest m k, s.writers i ≠ .writing fd rest m k) →
    ∀ c fd, s.conns[c]? = some fd → s.out fd = expected s.numThrs s.calls c

/-! ## The line of a connection -/

/-- The bytes that `writen` makes of a message. -/
def MsgT.body (m : MsgT) : Bytes := m.data.take m.len.toNat

/-- The messages that go to slot `k`. -/
def MsgT.hits (k : Nat) (m : MsgT) : Bool := m.type = .write ∧ (m.sock < 0 ∨ m.sock = k)

/-- The bytes for slot `k` in a queue. -/
def queued (q : List MsgT) (k : Nat) : Bytes := (q.filter (MsgT.hits k)).flatMap MsgT.body

/-- The bytes for `fd` that a writer has in hand. -/
def WriterPc.pending (fd : Fd) : WriterPc → Bytes
  | .writing fd' rest m k =>
      (if fd' = fd then m.body.drop k else []) ++ if fd ∈ rest then m.body else []
  | _ => []

/-- The bytes for the connections of thread `t` that the owner has not pushed yet. -/
def OwnerPc.pending (t : Nat) : OwnerPc → Bytes
  | .broadcasting p i => if i ≤ t then frame p else []
  | _ => []

namespace Pool

/-- Everything for connection `c` on socket `fd`, oldest first. -/
def line (s : Pool) (c : Nat) (fd : Fd) : Bytes :=
  s.out fd ++ ((s.writers (c % s.numThrs)).pending fd ++
    (queued (s.wthrinfo (c % s.numThrs)).msgq (c / s.numThrs) ++
      s.owner.pending (c % s.numThrs)))

theorem queued_concat (q : List MsgT) (m : MsgT) (k : Nat) :
    queued (q ++ [m]) k = queued q k ++ if m.hits k = true then m.body else [] := by
  unfold queued
  rw [List.filter_append, List.flatMap_append]
  by_cases h : m.hits k = true
  · simp [h]
  · simp [h]

theorem queued_cons (q : List MsgT) (m : MsgT) (k : Nat) :
    queued (m :: q) k = (if m.hits k = true then m.body else []) ++ queued q k := by
  unfold queued
  by_cases h : m.hits k = true
  · simp [h]
  · simp [h]

/-- A writer that begins with a message has all of it in hand for each of its sockets. -/
theorem pending_go (fd : Fd) (m : MsgT) (fds : List Fd) (hnd : fds.Nodup) :
    (WriterPc.go m fds).pending fd = if fd ∈ fds then m.body else [] := by
  induction fds with
  | nil => simp [WriterPc.go, WriterPc.pending]
  | cons fd' rest ih =>
      obtain ⟨hfresh, hrest⟩ := List.nodup_cons.mp hnd
      unfold WriterPc.go
      by_cases hlen : 0 < m.len.toNat
      · rw [if_pos hlen]
        by_cases hfd : fd' = fd
        · subst hfd
          simp [WriterPc.pending, hfresh]
        · simp [WriterPc.pending, hfd, Ne.symm hfd]
      · -- nothing to write: the loop over the sockets runs through
        have hbody : m.body = [] := by
          rw [MsgT.body, Nat.eq_zero_of_not_pos hlen, List.take_zero]
        rw [if_neg hlen, ih hrest, hbody]
        simp

/-! ## The invariant -/

/-- Every socket is in one slot of one thread. -/
structure Placed (s : Pool) : Prop where
  pos : 0 < s.numThrs
  room : s.maxConns < 2 ^ 16 ∧ s.numConns ≤ s.maxConns
  count : s.numConns = s.conns.length
  distinct : s.conns.Nodup
  slots : Dealt s.numThrs s.conns fun i => (s.wthrinfo i).socks
  shared : ∀ i, (s.rthrinfo i).socks = (s.wthrinfo i).socks
  absent : ∀ i, s.numThrs ≤ i → s.writers i = .absent

/-- A writer has its own sockets in hand, each once. -/
def Holds (s : Pool) : Prop :=
  ∀ i fd rest m k, s.writers i = .writing fd rest m k →
    (fd :: rest).Nodup ∧ ∀ x ∈ fd :: rest, x ∈ (s.wthrinfo i).socks

/-- Nothing has happened before the threads are started. -/
structure Fresh (s : Pool) : Prop where
  owner : s.owner = .idle
  calls : s.calls = []
  out : ∀ fd, s.out fd = []
  queues : ∀ i, (s.wthrinfo i).msgq = []
  writers : ∀ i, s.writers i = .absent

/-- **The invariant of the output.** -/
structure StreamInv (s : Pool) : Prop where
  placed : s.Placed
  holds : s.Holds
  fresh : s.running = false → s.Fresh
  lines : ∀ c fd, s.conns[c]? = some fd → s.line c fd = expected s.numThrs s.calls c

/-- **The invariant gives the property.** -/
theorem StreamInv.outputStream {s : Pool} (hs : s.StreamInv) : OutputStream s := by
  refine ⟨?_, ?_⟩
  · intro c fd hc
    rw [← hs.lines c fd hc]
    exact List.prefix_append _ _
  · intro howner hqueues hwriters c fd hc
    rw [← hs.lines c fd hc, line, howner, hqueues]
    have hidle : (s.writers (c % s.numThrs)).pending fd = [] := by
      cases hw : s.writers (c % s.numThrs) with
      | writing fd' rest m k => exact absurd hw (hwriters _ _ _ _ _)
      | absent => rfl
      | idle => rfl
      | exited => rfl
    simp [hidle, queued, OwnerPc.pending]

theorem streamInv_construct {numThrs : UInt16} (hpos : 0 < numThrs) (maxConns : UInt16)
    (buffSize : UInt32) (rdfds : Nat → Fd) :
    (construct numThrs maxConns buffSize rdfds 0).StreamInv where
  placed :=
    { pos := by simpa [construct, UInt16.lt_iff_toNat_lt] using hpos
      room := ⟨maxConns.toNat_lt, Nat.zero_le _⟩
      count := rfl
      distinct := List.nodup_nil
      slots := Dealt.nil
      shared := fun _ => rfl
      absent := fun _ _ => rfl }
  holds i fd rest m k h := by cases h
  fresh _ := ⟨rfl, rfl, fun _ => rfl, fun _ => rfl, fun _ => rfl⟩
  lines c fd h := by cases h

/-! ## One step -/

section

variable {s s' : Pool}

/-- The invariant over a step that leaves the placement alone. -/
theorem Placed.congr (hs : s.Placed) (h1 : s'.numThrs = s.numThrs) (h2 : s'.maxConns = s.maxConns)
    (h3 : s'.numConns = s.numConns) (h4 : s'.conns = s.conns)
    (h5 : ∀ i, (s'.wthrinfo i).socks = (s.wthrinfo i).socks) (h6 : s'.rthrinfo = s.rthrinfo)
    (h7 : ∀ i, s.writers i = .absent → s'.writers i = .absent) : s'.Placed where
  pos := h1 ▸ hs.pos
  room := by
    rw [h2, h3]
    exact hs.room
  count := by
    rw [h3, h4]
    exact hs.count
  distinct := h4 ▸ hs.distinct
  slots := by
    have hrows : (fun i => (s'.wthrinfo i).socks) = fun i => (s.wthrinfo i).socks := funext h5
    rw [h1, h4, hrows]
    exact hs.slots
  shared i := by
    rw [h6, h5]
    exact hs.shared i
  absent i hi := h7 i (hs.absent i (h1 ▸ hi))

/-- A change of the queue of one thread leaves the sockets where they are. -/
theorem socks_update {i : Nat} {t : ThrInfo} (h : t.socks = (s.wthrinfo i).socks) (j : Nat) :
    (Function.update s.wthrinfo i t j).socks = (s.wthrinfo j).socks := by
  by_cases hj : j = i
  · subst hj
    rw [Function.update_self, h]
  · rw [Function.update_of_ne hj]

theorem expected_concat (n : Nat) (calls : List Call) (k : Call) (c : Nat) :
    expected n (calls ++ [k]) c =
      expected n calls c ++ if k.targets n c = true then frame k.payload else [] := by
  unfold expected frames
  by_cases h : k.targets n c = true
  · simp [h]
  · simp [h]

/-- A message shorter than `2^32 - 4` bytes is written as its frame. -/
theorem body_ofPayload {p : Payload} (h : p.bytes.length < 2 ^ 32 - 4) (t : MsgType) (k : Int) :
    (MsgT.ofPayload t p k).body = frame p := by
  rw [MsgT.body, (MsgT.toNat_len_ofPayload_iff _ _ _).mpr h]
  exact List.take_length

/-- **Steps of the owner without a push.** -/
theorem StreamInv.quiet (hs : s.StreamInv) {o : OwnerPc} {cs : List Call} {rs : List Int}
    {rd : Nat → Option ReadThr} {cl : Fd → Bool} {st : Bool}
    (hrun : s.running = true ∨ o = s.owner ∧ cs = s.calls)
    (h : ∀ c, ∃ x, o.pending (c % s.numThrs) = s.owner.pending (c % s.numThrs) ++ x ∧
      expected s.numThrs cs c = expected s.numThrs s.calls c ++ x) :
    StreamInv { s with owner := o, calls := cs, rets := rs, readers := rd, closed := cl,
                       stopped := st } where
  placed := hs.placed.congr rfl rfl rfl rfl (fun _ => rfl) rfl (fun _ h => h)
  holds := hs.holds
  fresh hstop := by
    have hs0 := hs.fresh hstop
    rcases hrun with hrun | ⟨rfl, rfl⟩
    · rw [show s.running = false from hstop] at hrun
      cases hrun
    · exact ⟨hs0.owner, hs0.calls, hs0.out, hs0.queues, hs0.writers⟩
  lines c fd hc := by
    obtain ⟨x, hx, hexp⟩ := h c
    show s.out fd ++ ((s.writers (c % s.numThrs)).pending fd ++
      (queued (s.wthrinfo (c % s.numThrs)).msgq (c / s.numThrs) ++ o.pending (c % s.numThrs))) =
      expected s.numThrs cs c
    rw [hx, hexp, ← hs.lines c fd hc, line]
    simp only [List.append_assoc]

/-- **A push** appends the message to the queue of thread `i`. -/
theorem StreamInv.push (hs : s.StreamInv) (hrun : s.running = true) (i : Nat) (m : MsgT)
    {o : OwnerPc} {cs : List Call} {rs : List Int}
    (h : ∀ c, ∃ x, (if c % s.numThrs = i ∧ m.hits (c / s.numThrs) = true then m.body else []) ++
        o.pending (c % s.numThrs) = s.owner.pending (c % s.numThrs) ++ x ∧
      expected s.numThrs cs c = expected s.numThrs s.calls c ++ x) :
    StreamInv { s.push i m with owner := o, calls := cs, rets := rs } := by
  have hsocks := socks_update (s := s) (i := i) (t := (s.wthrinfo i).enqueue m) rfl
  refine ⟨?_, ?_, ?_, ?_⟩
  · exact hs.placed.congr rfl rfl rfl rfl hsocks rfl (fun _ h => h)
  · intro j fd rest m' k hj
    obtain ⟨hnd, hmem⟩ := hs.holds j fd rest m' k hj
    exact ⟨hnd, fun x hx => (hsocks j).symm ▸ hmem x hx⟩
  · intro hstop
    rw [show s.running = false from hstop] at hrun
    cases hrun
  · intro c fd hc
    obtain ⟨x, hx, hexp⟩ := h c
    have hqueue : queued (Function.update s.wthrinfo i ((s.wthrinfo i).enqueue m)
          (c % s.numThrs)).msgq (c / s.numThrs) =
        queued (s.wthrinfo (c % s.numThrs)).msgq (c / s.numThrs) ++
          if c % s.numThrs = i ∧ m.hits (c / s.numThrs) = true then m.body else [] := by
      by_cases hi : c % s.numThrs = i
      · rw [hi, Function.update_self, ThrInfo.enqueue, queued_concat]
        simp
      · rw [Function.update_of_ne hi]
        simp [hi]
    show s.out fd ++ ((s.writers (c % s.numThrs)).pending fd ++
      (queued (Function.update s.wthrinfo i ((s.wthrinfo i).enqueue m) (c % s.numThrs)).msgq
        (c / s.numThrs) ++ o.pending (c % s.numThrs))) = expected s.numThrs cs c
    rw [hqueue, List.append_assoc, hx, hexp, ← hs.lines c fd hc, line]
    simp only [List.append_assoc]

/-- A message goes to the socket in slot `c / n` exactly if it hits the slot. -/
theorem Placed.mem_targets (hs : s.Placed) {c : Nat} {fd : Fd} (hc : s.conns[c]? = some fd) {m : MsgT}
    (hm : m.type = .write) :
    fd ∈ (s.wthrinfo (c % s.numThrs)).targets m ↔ m.hits (c / s.numThrs) = true := by
  have hslot := (hs.slots.get hs.pos c).trans hc
  have hi := Nat.mod_lt c hs.pos
  unfold ThrInfo.targets
  by_cases hall : m.sock < 0
  · have hmem := hs.slots.mem_row hs.pos hc
    simp [hall, MsgT.hits, hm, hmem]
  · rw [if_neg hall, Option.mem_toList]
    simp only [MsgT.hits, hm, hall, true_and, false_or, decide_eq_true_eq]
    constructor
    · intro hget
      have hk := hs.slots.place_unique hs.distinct hi hget hslot
      omega
    · intro hk
      have hnat : m.sock.toNat = c / s.numThrs := by omega
      rw [hnat]
      exact hslot

theorem Placed.nodup_targets (hs : s.Placed) {i : Nat} (hi : i < s.numThrs) (m : MsgT) :
    ((s.wthrinfo i).targets m).Nodup := by
  unfold ThrInfo.targets
  split_ifs
  · exact hs.slots.nodup_row hs.distinct hi
  · cases (s.wthrinfo i).socks[m.sock.toNat]? with
    | none => exact List.nodup_nil
    | some fd => exact List.nodup_singleton fd

theorem targets_subset (t : ThrInfo) (m : MsgT) : ∀ x ∈ t.targets m, x ∈ t.socks := by
  intro x hx
  unfold ThrInfo.targets at hx
  split_ifs at hx
  · exact hx
  · exact List.mem_of_getElem? (Option.mem_toList.mp hx)

/-- What a writer has in hand when it begins. -/
theorem holds_go {m : MsgT} {fd : Fd} {rest : List Fd} {m' : MsgT} {k : Nat} {fds : List Fd}
    (h : WriterPc.go m fds = .writing fd rest m' k) : (fd :: rest) <:+ fds := by
  induction fds with
  | nil => cases h
  | cons fd' fds ih =>
      unfold WriterPc.go at h
      split_ifs at h
      · cases h
        exact List.suffix_refl _
      · exact (ih h).trans (List.suffix_cons _ _)

/-- A writer that is not absent is one of the `n`. -/
theorem Placed.lt_of_writer (hs : s.Placed) {i : Nat} (h : s.writers i ≠ .absent) :
    i < s.numThrs := by
  by_contra hge
  exact h (hs.absent i (Nat.le_of_not_lt hge))

/-- **A writer takes a message**: the message moves from the head of its queue into its hand. -/
theorem StreamInv.pop (hs : s.StreamInv) {i : Nat} {m : MsgT} {q : List MsgT} {pc : WriterPc}
    (hw : s.writers i = .idle) (hq : (s.wthrinfo i).msgq = m :: q)
    (hpending : ∀ c fd, s.conns[c]? = some fd → c % s.numThrs = i →
      pc.pending fd = if m.hits (c / s.numThrs) = true then m.body else [])
    (hholds : ∀ fd rest m' k, pc = .writing fd rest m' k →
      (fd :: rest).Nodup ∧ ∀ x ∈ fd :: rest, x ∈ (s.wthrinfo i).socks) :
    StreamInv { s with
      wthrinfo := Function.update s.wthrinfo i { s.wthrinfo i with msgq := q },
      writers := Function.update s.writers i pc } := by
  have hi : i < s.numThrs := hs.placed.lt_of_writer (by simp [hw])
  have hsocks := socks_update (s := s) (i := i) (t := { s.wthrinfo i with msgq := q }) rfl
  refine ⟨?_, ?_, ?_, ?_⟩
  · refine hs.placed.congr rfl rfl rfl rfl hsocks rfl ?_
    intro j hj
    have hne : j ≠ i := by
      rintro rfl
      rw [hw] at hj
      cases hj
    exact (Function.update_of_ne hne _ _).trans hj
  · intro j fd rest m' k hj
    by_cases hji : j = i
    · subst hji
      simp only [Function.update_self] at hj
      obtain ⟨hnd, hmem⟩ := hholds fd rest m' k hj
      exact ⟨hnd, fun x hx => (hsocks j).symm ▸ hmem x hx⟩
    · simp only [Function.update_of_ne hji] at hj
      obtain ⟨hnd, hmem⟩ := hs.holds j fd rest m' k hj
      exact ⟨hnd, fun x hx => (hsocks j).symm ▸ hmem x hx⟩
  · intro hstop
    have hqueue := (hs.fresh hstop).queues i
    rw [hq] at hqueue
    cases hqueue
  · intro c fd hc
    rw [show expected _ _ _ = expected s.numThrs s.calls c from rfl, ← hs.lines c fd hc]
    show s.out fd ++ ((Function.update s.writers i pc (c % s.numThrs)).pending fd ++
      (queued (Function.update s.wthrinfo i { s.wthrinfo i with msgq := q }
        (c % s.numThrs)).msgq (c / s.numThrs) ++ s.owner.pending (c % s.numThrs))) = _
    by_cases hci : c % s.numThrs = i
    · rw [line, hci, Function.update_self, Function.update_self, hw, hq, queued_cons,
        hpending c fd hc hci]
      simp [WriterPc.pending]
    · rw [line, Function.update_of_ne hci, Function.update_of_ne hci]

/-- The bytes of a message behind the first `k` are the next chunk and the bytes behind it. -/
theorem chunk_append (m : MsgT) (k j : Nat) :
    chunk m k j ++ m.body.drop (k + (chunk m k j).length) = m.body.drop k := by
  have hbody : (m.data.drop k).take (m.len.toNat - k) = m.body.drop k := by
    rw [MsgT.body, List.drop_take]
  unfold chunk
  rw [hbody, ← List.drop_drop]
  exact (List.prefix_iff_eq_append.mp (List.take_prefix _ _))

/-- **A `write`** moves a chunk from the hand of the writer to the socket. -/
theorem StreamInv.write (hs : s.StreamInv) {i j : Nat} {fd : Fd} {rest : List Fd} {m : MsgT} {k : Nat}
    (hw : s.writers i = .writing fd rest m k) :
    StreamInv { s with
      out := Function.update s.out fd (s.out fd ++ chunk m k j),
      writers := Function.update s.writers i
        (if k + (chunk m k j).length < m.len.toNat then .writing fd rest m (k + (chunk m k j).length)
        else WriterPc.go m rest) } := by
  have hi : i < s.numThrs := hs.placed.lt_of_writer (by simp [hw])
  obtain ⟨hnd, hmem⟩ := hs.holds i fd rest m k hw
  obtain ⟨hfresh, hrest⟩ := List.nodup_cons.mp hnd
  -- what the writer has in hand afterwards, for each socket
  have hpending : ∀ x, (if k + (chunk m k j).length < m.len.toNat then
        WriterPc.writing fd rest m (k + (chunk m k j).length) else WriterPc.go m rest).pending x =
      (if fd = x then m.body.drop (k + (chunk m k j).length) else []) ++
        if x ∈ rest then m.body else [] := by
    intro x
    by_cases hlt : k + (chunk m k j).length < m.len.toNat
    · rw [if_pos hlt]
      rfl
    · have hend : m.body.drop (k + (chunk m k j).length) = [] := by
        apply List.drop_eq_nil_of_le
        exact Nat.le_trans (List.length_take_le _ _) (Nat.le_of_not_lt hlt)
      rw [if_neg hlt, hend, pending_go x m rest hrest, ite_self, List.nil_append]
  refine ⟨?_, ?_, ?_, ?_⟩
  · refine hs.placed.congr rfl rfl rfl rfl (fun _ => rfl) rfl ?_
    intro x hx
    have hne : x ≠ i := by
      rintro rfl
      rw [hw] at hx
      cases hx
    exact (Function.update_of_ne hne _ _).trans hx
  · intro x fd' rest' m' k' hx
    by_cases hxi : x = i
    · subst hxi
      simp only [Function.update_self] at hx
      split_ifs at hx
      · cases hx
        exact ⟨hnd, hmem⟩
      · have hsuffix := holds_go hx
        exact ⟨hrest.sublist hsuffix.sublist,
          fun y hy => hmem y (List.mem_cons_of_mem _ (hsuffix.subset hy))⟩
    · simp only [Function.update_of_ne hxi] at hx
      exact hs.holds x fd' rest' m' k' hx
  · intro hstop
    have habsent := (hs.fresh hstop).writers i
    rw [hw] at habsent
    cases habsent
  · intro c x hc
    rw [show expected _ _ _ = expected s.numThrs s.calls c from rfl, ← hs.lines c x hc]
    unfold line
    by_cases hci : c % s.numThrs = i
    · have hbefore : (s.writers i).pending x =
          (if fd = x then m.body.drop k else []) ++ if x ∈ rest then m.body else [] := by
        rw [hw]
        rfl
      rw [hci]
      simp only [Function.update_self, hpending, hbefore]
      by_cases hx : fd = x
      · subst hx
        simp only [Function.update_self, if_true, List.append_assoc]
        rw [← chunk_append m k j]
        simp only [List.append_assoc]
      · rw [Function.update_of_ne (Ne.symm hx)]
        simp [hx]
    · -- the socket of another thread
      have hx : x ≠ fd := by
        rintro rfl
        exact hci (hs.placed.slots.row_unique hs.placed.distinct (Nat.mod_lt c hs.placed.pos) hi
          (hs.placed.slots.mem_row hs.placed.pos hc) (hmem x List.mem_cons_self))
      simp only [Function.update_of_ne hci, Function.update_of_ne hx]

theorem addConn_eq_some {t t' : ThrInfo} {sock : Fd} (h : t.addConn sock = some t') :
    t'.socks = t.socks ++ [sock] ∧ t'.msgq = t.msgq := by
  unfold ThrInfo.addConn at h
  by_cases hroom : t.socks.length + 1 ≤ t.maxSocks
  · rw [if_pos hroom] at h
    cases h
    exact ⟨rfl, rfl⟩
  · rw [if_neg hroom] at h
    cases h

/-- **A connection is added** to the slot whose turn it is. -/
theorem StreamInv.addConn (hs : s.StreamInv) {sock : Fd} {addr : Bytes} {w r : ThrInfo}
    {rs : List Int} (hrun : s.running = false) (hroom : s.numConns ≠ s.maxConns)
    (hnew : sock ∉ s.conns)
    (hw : (s.wthrinfo (s.numConns % s.numThrs)).addConn sock = some w)
    (hr : (s.rthrinfo (s.numConns % s.numThrs)).addConn sock = some r) :
    StreamInv { s with
      wthrinfo := Function.update s.wthrinfo (s.numConns % s.numThrs) w,
      rthrinfo := Function.update s.rthrinfo (s.numConns % s.numThrs) r,
      sockaddrs := Function.update s.sockaddrs s.numConns (some addr),
      numConns := (s.numConns + 1) % 2 ^ 16, conns := s.conns ++ [sock], owner := .idle,
      rets := rs } := by
  obtain ⟨hws, hwq⟩ := addConn_eq_some hw
  obtain ⟨hrs, -⟩ := addConn_eq_some hr
  obtain ⟨hmax, hle⟩ := hs.placed.room
  have hmod : (s.numConns + 1) % 2 ^ 16 = s.numConns + 1 := Nat.mod_eq_of_lt (by omega)
  have hs0 := hs.fresh hrun
  have hqueues : ∀ i, (Function.update s.wthrinfo (s.numConns % s.numThrs) w i).msgq = [] := by
    intro i
    by_cases hi : i = s.numConns % s.numThrs
    · subst hi
      rw [Function.update_self, hwq, hs0.queues]
    · rw [Function.update_of_ne hi, hs0.queues]
  refine ⟨⟨hs.placed.pos, ?_, ?_, ?_, ?_, ?_, hs.placed.absent⟩, ?_, ?_, ?_⟩
  · refine ⟨hmax, ?_⟩
    show (s.numConns + 1) % 2 ^ 16 ≤ s.maxConns
    omega
  · show (s.numConns + 1) % 2 ^ 16 = (s.conns ++ [sock]).length
    rw [hmod, hs.placed.count, List.length_append, List.length_singleton]
  · have hdistinct := hs.placed.distinct.concat hnew
    rw [List.concat_eq_append] at hdistinct
    exact hdistinct
  · have hcount := hs.placed.count
    rw [hcount] at hws ⊢
    refine hs.placed.slots.concat hs.placed.pos sock ?_ ?_
    · show (Function.update s.wthrinfo (s.conns.length % s.numThrs) w _).socks = _
      rw [Function.update_self, hws]
    · intro i hi
      show (Function.update s.wthrinfo (s.conns.length % s.numThrs) w i).socks = _
      rw [Function.update_of_ne hi]
  · intro i
    show (Function.update s.rthrinfo (s.numConns % s.numThrs) r i).socks =
      (Function.update s.wthrinfo (s.numConns % s.numThrs) w i).socks
    by_cases hi : i = s.numConns % s.numThrs
    · subst hi
      rw [Function.update_self, Function.update_self, hrs, hws, hs.placed.shared]
    · rw [Function.update_of_ne hi, Function.update_of_ne hi, hs.placed.shared]
  · intro i fd rest m k h
    have habsent := hs0.writers i
    rw [show s.writers i = .writing fd rest m k from h] at habsent
    cases habsent
  · intro _
    exact ⟨rfl, hs0.calls, hs0.out, hqueues, hs0.writers⟩
  · intro c fd _
    show s.out fd ++ ((s.writers (c % s.numThrs)).pending fd ++
      (queued (Function.update s.wthrinfo (s.numConns % s.numThrs) w (c % s.numThrs)).msgq
        (c / s.numThrs) ++ [])) = expected s.numThrs s.calls c
    rw [hs0.out, hs0.writers, hqueues, hs0.calls]
    rfl

/-- The threads are started. -/
theorem StreamInv.start (hs : s.StreamInv) {writers : Nat → WriterPc}
    {readers : Nat → Option ReadThr} {rs : List Int} (hidle : s.owner = .idle)
    (hrun : s.running = false)
    (hwriters : ∀ i, writers i = s.writers i ∨ i < s.numThrs ∧ writers i = .idle) :
    StreamInv { s with writers := writers, readers := readers, running := true, owner := .idle,
                       rets := rs } := by
  have hs0 := hs.fresh hrun
  have hnone : ∀ i, writers i = .absent ∨ writers i = .idle := by
    intro i
    rcases hwriters i with h | ⟨-, h⟩
    · exact .inl (h.trans (hs0.writers i))
    · exact .inr h
  refine ⟨?_, ?_, ?_, ?_⟩
  · refine ⟨hs.placed.pos, hs.placed.room, hs.placed.count, hs.placed.distinct, hs.placed.slots,
      hs.placed.shared, ?_⟩
    intro i hi
    rcases hwriters i with h | ⟨hlt, -⟩
    · exact h.trans (hs.placed.absent i hi)
    · exact absurd hlt (Nat.not_lt_of_le hi)
  · intro i fd rest m k h
    rcases hnone i with hi | hi
    · rw [show writers i = .writing fd rest m k from h] at hi
      cases hi
    · rw [show writers i = .writing fd rest m k from h] at hi
      cases hi
  · intro h
    cases h
  · intro c fd hc
    have hpending : (writers (c % s.numThrs)).pending fd = [] := by
      rcases hnone (c % s.numThrs) with h | h <;> rw [h] <;> rfl
    rw [show expected _ _ _ = expected s.numThrs s.calls c from rfl, ← hs.lines c fd hc]
    show s.out fd ++ ((writers (c % s.numThrs)).pending fd ++
      (queued (s.wthrinfo (c % s.numThrs)).msgq (c / s.numThrs) ++ [])) = _
    rw [line, hpending, hs0.writers, hidle]
    rfl

end

/-- The condition on a step: a socket is added once, the length field of every frame holds its
length, and no `write` fails. -/
def FramesFit (s : Pool) : PoolLabel → Prop
  | .addConn sock _ => sock ∉ s.conns
  | .send _ p => p.bytes.length < 2 ^ 32 - 4
  | .thrBroadcast _ p => p.bytes.length < 2 ^ 32 - 4
  | .broadcast p => p.bytes.length < 2 ^ 32 - 4
  | .write _ o => o ≠ .err
  | _ => True

/-- The message under way in a `broadcast` fits. -/
def BroadcastFits (s : Pool) : Prop :=
  ∀ p i, s.owner = .broadcasting p i → p.bytes.length < 2 ^ 32 - 4

section

variable {s s' : Pool} {l : PoolLabel}

theorem hits_all (t : MsgType) (p : Payload) (k : Nat) :
    (MsgT.ofPayload t p (-1)).hits k = decide (t = .write) := by
  simp [MsgT.hits, MsgT.ofPayload]

/-- A message for all the connections of thread `i`, seen from connection `c`. -/
theorem pushed_all {p : Payload} (h : p.bytes.length < 2 ^ 32 - 4) (n i c : Nat) :
    (if c % n = i ∧ (MsgT.ofPayload .write p (-1)).hits (c / n) = true then
      (MsgT.ofPayload .write p (-1)).body else []) = if c % n = i then frame p else [] := by
  rw [hits_all, body_ofPayload h]
  simp only [decide_true, and_true]

/-- A message for connection `cliid` goes to no other: the same slot of the same thread is the same
connection. -/
theorem pushed_send {p : Payload} (h : p.bytes.length < 2 ^ 32 - 4) (n cliid c : Nat) :
    (if c % n = cliid % n ∧ (MsgT.ofPayload .write p (cliid / n : Nat)).hits (c / n) = true then
      (MsgT.ofPayload .write p (cliid / n : Nat)).body else []) =
      if cliid = c then frame p else [] := by
  rw [body_ofPayload h]
  by_cases hcc : cliid = c
  · subst hcc
    simp [MsgT.hits, MsgT.ofPayload]
  · rw [if_neg hcc, if_neg]
    rintro ⟨hmod, hhits⟩
    have hdiv : cliid / n = c / n := by
      rcases (of_decide_eq_true hhits).2 with hneg | heq
      · exact absurd hneg (Int.not_lt.mpr (Int.natCast_nonneg _))
      · exact Int.ofNat.inj heq
    apply hcc
    rw [← Nat.div_add_mod cliid n, ← Nat.div_add_mod c n, hdiv, hmod]

/-- A turn of `broadcast` serves thread `i`: what it pushes was pending there. -/
theorem pending_broadcasting (p : Payload) (i t : Nat) :
    (if t = i then frame p else []) ++ (OwnerPc.broadcasting p (i + 1)).pending t =
      (OwnerPc.broadcasting p i).pending t := by
  show _ ++ (if i + 1 ≤ t then frame p else []) = if i ≤ t then frame p else []
  rcases Nat.lt_trichotomy t i with hlt | rfl | hgt
  · rw [if_neg (Nat.ne_of_lt hlt), if_neg (by omega), if_neg (by omega), List.append_nil]
  · rw [if_pos rfl, if_neg (by omega), if_pos (Nat.le_refl t), List.append_nil]
  · rw [if_neg (Nat.ne_of_gt hgt), if_pos (Nat.succ_le_of_lt hgt), if_pos (Nat.le_of_lt hgt),
      List.nil_append]

/-- The owner is in a call only when the pool runs. -/
theorem StreamInv.running_of_owner (hs : s.StreamInv) (h : s.owner ≠ .idle) : s.running = true := by
  cases hrun : s.running with
  | true => rfl
  | false => exact absurd (hs.fresh hrun).owner h

/-- **Every step that meets the condition keeps the invariant.** -/
theorem streamInv_step (hs : s.StreamInv) (hb : s.BroadcastFits) (hok : s.FramesFit l)
    (h : PoolTrans s l s') : s'.StreamInv := by
  have hn := hs.placed.pos
  -- a step of the owner that changes nothing for the connections
  have hsame : ∀ {o : OwnerPc}, (∀ t, t < s.numThrs → o.pending t = s.owner.pending t) → ∀ c, ∃ x,
      o.pending (c % s.numThrs) = s.owner.pending (c % s.numThrs) ++ x ∧
      expected s.numThrs s.calls c = expected s.numThrs s.calls c ++ x := by
    intro o ho c
    refine ⟨[], ?_, ?_⟩
    · rw [ho _ (Nat.mod_lt c hn), List.append_nil]
    · rw [List.append_nil]
  cases h with
  | reject hidle => exact hs.quiet (.inr ⟨hidle.symm, rfl⟩) (hsame fun t _ => by rw [hidle])
  | addConn hidle hrun hroom hw hr => exact hs.addConn hrun hroom hok hw hr
  | startAll hidle hrun hwriters => exact hs.start hidle hrun hwriters
  | thrBroadcast hidle hrun ht =>
      rename_i thrid p
      refine hs.push hrun thrid (MsgT.ofPayload .write p (-1)) ?_
      intro c
      refine ⟨_, ?_, expected_concat s.numThrs s.calls _ c⟩
      rw [pushed_all hok, hidle]
      simp only [OwnerPc.pending, List.append_nil, List.nil_append, Call.targets, Call.payload,
        decide_eq_true_eq, eq_comm (a := thrid)]
  | send hidle hrun hc =>
      rename_i cliid p
      refine hs.push hrun (cliid % s.numThrs) (MsgT.ofPayload .write p (cliid / s.numThrs : Nat)) ?_
      intro c
      refine ⟨_, ?_, expected_concat s.numThrs s.calls _ c⟩
      rw [pushed_send hok, hidle]
      simp only [OwnerPc.pending, List.append_nil, List.nil_append, Call.targets, Call.payload,
        decide_eq_true_eq]
  | broadcast hidle hrun =>
      rename_i p
      refine hs.quiet (.inl hrun) ?_
      intro c
      refine ⟨frame p, ?_, ?_⟩
      · rw [hidle]
        simp [OwnerPc.pending]
      · rw [expected_concat]
        simp [Call.targets, Call.payload]
  | stopAll hidle hrun => exact hs.quiet (.inl hrun) (hsame fun t _ => by rw [hidle]; rfl)
  | broadcastPush ho hi =>
      rename_i p i
      refine hs.push (hs.running_of_owner (by simp [ho])) i (MsgT.ofPayload .write p (-1)) ?_
      intro c
      refine ⟨[], ?_, (List.append_nil _).symm⟩
      rw [pushed_all (hb p i ho), ho, List.append_nil]
      exact pending_broadcasting p i (c % s.numThrs)
  | broadcastEnd ho hi =>
      refine hs.quiet (.inl (hs.running_of_owner (by simp [ho]))) (hsame ?_)
      intro t ht
      have hpast : ¬ _ ≤ t := Nat.not_le_of_lt (Nat.lt_of_lt_of_le ht hi)
      rw [ho]
      simp [OwnerPc.pending, hpast]
  | stopPush ho hi =>
      rename_i i
      refine hs.push (hs.running_of_owner (by simp [ho])) i exitMsg ?_
      intro c
      refine ⟨[], ?_, (List.append_nil _).symm⟩
      rw [exitMsg, hits_all, ho]
      simp [OwnerPc.pending]
  | stopClose ho | stopEnd ho | joinWriter ho | joinReader ho | joinEnd ho =>
      exact hs.quiet (.inl (hs.running_of_owner (by simp [ho])))
        (hsame fun t _ => by rw [ho]; rfl)
  | popExit hw hq hm =>
      refine hs.pop hw hq ?_ ?_
      · intro c fd _ _
        simp [WriterPc.pending, MsgT.hits, hm]
      · intro fd rest m' k h
        cases h
  | popWrite hw hq hm =>
      rename_i i m q
      have hi : i < s.numThrs := hs.placed.lt_of_writer (by simp [hw])
      have hnd := hs.placed.nodup_targets hi m
      refine hs.pop hw hq ?_ ?_
      · intro c fd hc hci
        subst hci
        rw [pending_go fd m _ hnd]
        simp only [hs.placed.mem_targets hc hm]
      · intro fd rest m' k h
        have hsuffix := holds_go h
        exact ⟨hnd.sublist hsuffix.sublist,
          fun x hx => targets_subset _ _ x (hsuffix.subset hx)⟩
  | writeFail hw => exact absurd rfl hok
  | write hw hopen => exact hs.write hw
  | reader hr hstep => exact hs.quiet (.inr ⟨rfl, rfl⟩) (hsame fun t _ => rfl)

theorem broadcastFits_step (hb : s.BroadcastFits) (hok : s.FramesFit l) (h : PoolTrans s l s') :
    s'.BroadcastFits := by
  intro p i ho
  cases h with
  | broadcast hidle hrun =>
      cases ho
      exact hok
  | broadcastPush ho' hi =>
      cases ho
      exact hb _ _ ho'
  | popExit | popWrite | writeFail | write | reader => exact hb p i ho
  | _ => cases ho

/-- What holds in every state of a run that meets the condition. -/
structure Sound (s : Pool) : Prop where
  stream : s.StreamInv
  fits : s.BroadcastFits

theorem sound_step (hs : s.Sound) (hok : s.FramesFit l) (h : s.step l = some s') : s'.Sound :=
  ⟨streamInv_step hs.stream hs.fits hok (poolTrans_of_step h),
    broadcastFits_step hs.fits hok (poolTrans_of_step h)⟩

theorem sound_construct {numThrs : UInt16} (hpos : 0 < numThrs) (maxConns : UInt16)
    (buffSize : UInt32) (rdfds : Nat → Fd) :
    (construct numThrs maxConns buffSize rdfds 0).Sound :=
  ⟨streamInv_construct hpos maxConns buffSize rdfds, fun _ _ ho => by cases ho⟩

end

/-! ## The pool writes what it was told -/

/-- **Every connection carries the frames of its calls.** For every number of threads, every set of
connections with distinct sockets and every run whose messages are shorter than `2^32 - 4` bytes and
whose writes do not fail. -/
theorem outputStream_of_framesFit (numThrs maxConns : UInt16) (hpos : 0 < numThrs)
    (buffSize : UInt32) (rdfds : Nat → Fd) (ls : List PoolLabel) (s : Pool)
    (hrun : exec step (construct numThrs maxConns buffSize rdfds 0) ls = some s)
    (hok : Meets step FramesFit (construct numThrs maxConns buffSize rdfds 0) ls) :
    OutputStream s := by
  have hs : s.Sound := exec_invariant_of_meets (fun _ _ _ hs hl h => sound_step hs hl h)
    (sound_construct hpos maxConns buffSize rdfds) hok hrun
  exact hs.stream.outputStream

instance (s : Pool) : ∀ l : PoolLabel, Decidable (s.FramesFit l)
  | .addConn sock _ => inferInstanceAs (Decidable (sock ∉ s.conns))
  | .send _ p => inferInstanceAs (Decidable (p.bytes.length < 2 ^ 32 - 4))
  | .thrBroadcast _ p => inferInstanceAs (Decidable (p.bytes.length < 2 ^ 32 - 4))
  | .broadcast p => inferInstanceAs (Decidable (p.bytes.length < 2 ^ 32 - 4))
  | .write _ o => inferInstanceAs (Decidable (o ≠ .err))
  | .startAll .. | .stopAll | .owner | .pop _ | .reader .. => isTrue trivial

/-- Three connections on two pairs of threads, a `send` to connection 2 and a `broadcast`. -/
def threeConns : List PoolLabel :=
  [.addConn 10 [], .addConn 11 [], .addConn 12 [],
    .startAll (fun _ => true) (fun _ => true) (fun _ => ⟨[], false⟩)
      (fun _ => ⟨fun _ => 0, fun _ => 0, 0, false⟩),
    .send 2 ⟨[1, 2], by decide⟩, .broadcast ⟨[3], by decide⟩, .owner, .pop 0, .write 0 (.put 2),
    .owner, .pop 1, .owner, .write 1 (.put 9), .write 0 (.put 9), .pop 0, .write 0 (.put 9)]

/-- Writer 0 has written the first frame in two pieces and is between its two sockets in the second,
writer 1 is done. -/
theorem outputStream_threeConns :
    ∃ s, exec step (construct 2 3 64 (fun _ => 5) 0) threeConns = some s ∧ OutputStream s ∧
      s.out 10 = [1, 0, 0, 0, 3] ∧ s.out 11 = [1, 0, 0, 0, 3] ∧ s.out 12 = [2, 0, 0, 0, 1, 2] := by
  obtain ⟨s, hrun, hs⟩ := exists_exec step (construct 2 3 64 (fun _ => 5) 0) threeConns
    (fun s => s.out 10 = [1, 0, 0, 0, 3] ∧ s.out 11 = [1, 0, 0, 0, 3] ∧
      s.out 12 = [2, 0, 0, 0, 1, 2]) (by decide)
  refine ⟨s, hrun, ?_, of_decide_eq_true hs⟩
  exact outputStream_of_framesFit 2 3 (by decide) 64 (fun _ => 5) threeConns s hrun (by decide)

/-- One connection and one `send`, of which the writer takes the message. -/
def oneSend (p : Payload) : List PoolLabel :=
  [.addConn 10 [],
    .startAll (fun _ => true) (fun _ => true) (fun _ => ⟨[], false⟩)
      (fun _ => ⟨fun _ => 0, fun _ => 0, 0, false⟩),
    .send 0 p, .pop 0]

/-- The state after `oneSend`. -/
theorem exec_oneSend (p : Payload) :
    ∃ s, exec step (construct 1 1 64 (fun _ => 5) 0) (oneSend p) = some s ∧ s.conns = [10] ∧
      s.numThrs = 1 ∧ s.calls = [.send 0 p] ∧ s.owner = .idle ∧ s.out 10 = [] ∧
      (∀ i, (s.wthrinfo i).msgq = []) ∧
      (∀ i, i ≠ 0 → s.writers i = .absent) ∧
      s.writers 0 = WriterPc.go (MsgT.ofPayload .write p 0) [10] := by
  refine ⟨_, rfl, rfl, rfl, rfl, rfl, rfl, ?_, ?_, rfl⟩
  · intro i
    cases i with
    | zero => rfl
    | succ i => rfl
  · intro i hi
    cases i with
    | zero => exact absurd rfl hi
    | succ i => rfl

/-- The first length whose frame does not fit. -/
def longPayload : Payload := ⟨List.replicate (2 ^ 32 - 4) 0, by rw [List.length_replicate]; decide⟩

/-- **A frame is lost**: the length field of a message of `2^32 - 4` bytes wraps to 0, so its writer
writes nothing and is done with it. -/
theorem not_outputStream_of_wrap :
    ∃ s, exec step (construct 1 1 64 (fun _ => 5) 0) (oneSend longPayload) = some s ∧
      ¬ OutputStream s := by
  obtain ⟨s, hrun, hconns, hthrs, hcalls, howner, hout, hqueues, hwriters, hwriter⟩ :=
    exec_oneSend longPayload
  refine ⟨s, hrun, ?_⟩
  intro hstream
  have hlen : longPayload.bytes.length = 2 ^ 32 - 4 := List.length_replicate
  have hwrap : (MsgT.ofPayload .write longPayload 0).len.toNat = 0 := by
    have hfour : (4 : UInt32).toNat = 4 := by decide
    have hmod : (2 ^ 32 - 4 + 4) % 2 ^ 32 = 0 := by decide
    have hsum : (longPayload.len + 4).toNat = (2 ^ 32 - 4 + 4) % 2 ^ 32 := by
      rw [UInt32.toNat_add, Payload.toNat_len, hfour, hlen]
    exact hsum.trans hmod
  have hidle : s.writers 0 = .idle := by
    rw [hwriter, WriterPc.go, hwrap]
    rfl
  have hdone : ∀ i fd rest m k, s.writers i ≠ .writing fd rest m k := by
    intro i fd rest m k
    rcases Nat.eq_zero_or_pos i with rfl | hi
    · rw [hidle]
      simp
    · rw [hwriters i (Nat.pos_iff_ne_zero.mp hi)]
      simp
  have hall := hstream.complete howner hqueues hdone 0 10 (by rw [hconns]; rfl)
  rw [hout, hthrs, hcalls] at hall
  have hframe : expected 1 [.send 0 longPayload] 0 = frame longPayload := by
    simp [expected, Call.targets, Call.payload]
  rw [hframe] at hall
  have hlong := congrArg List.length hall
  rw [length_frame, List.length_nil] at hlong
  omega

end Pool

end CommTest.Socket
