import CommTest.Lib.RoundRobin
import CommTest.Socket.Pool

/-!
# Where the pool keeps its connections

The constructor splits `max_conns` over the threads by quotient and remainder, `add_conn` deals the
connections out by remainder, and `send` finds the slot again by remainder and quotient.

* `Slots` is the invariant, over every run of the pool: the connections are dealt out to the
  writers, the readers have the same ones, and no thread has more than its share.
* `SameConns` is what every step but an accepted `add_conn` leaves alone.
* `Slots.slot_lt`: an accepted `send` names a slot that is filled.
* `connection_placement`: any sequence of `add_conn` calls returns `0, 1, 2, …` until the pool is
  full and `-1` from then on, and leaves every connection in its slot.
-/

set_option linter.unusedSectionVars false

namespace CommTest.Socket

open Mem FairQueue Lts RoundRobin

namespace Pool

/-- The `add_conn` calls of a list, one after the other. -/
def addConns (s : Pool) (calls : List (Fd × Bytes)) : Option Pool :=
  exec (fun s c => s.addConn c.1 c.2) s calls

/-! ## The invariant -/

/-- The slots of a pool and the arrays they are in. -/
structure Slots (s : Pool) : Prop where
  pos : 0 < s.numThrs
  width : s.maxConns < 2 ^ 16
  room : s.conns.length ≤ s.maxConns
  count : s.numConns = s.conns.length
  slots : Dealt s.numThrs s.conns fun i => (s.wthrinfo i).socks
  shared : ∀ i, (s.rthrinfo i).socks = (s.wthrinfo i).socks
  wsizes : ∀ i, (s.wthrinfo i).maxSocks = share s.numThrs s.maxConns i
  rsizes : ∀ i, (s.rthrinfo i).maxSocks = share s.numThrs s.maxConns i
  whole : ∑ i ∈ Finset.range s.numThrs, ((s.wthrinfo i).socks : Multiset Fd) = s.conns
  rdfd : ∀ i, (s.rthrinfo i).rdfd ≤ (s.rthrinfo i).maxSockfd
  selected : ∀ i, ∀ x ∈ (s.rthrinfo i).socks, x ≤ (s.rthrinfo i).maxSockfd

/-- `max_sockfd` covers the descriptor that comes and those that were there. -/
theorem le_maxSockfd {a b x : Int} (h : x ≤ a ∨ x = b) : x ≤ if a < b then b else a := by
  split_ifs <;> omega

theorem slots_construct {numThrs : UInt16} (hpos : 0 < numThrs) (maxConns : UInt16)
    (buffSize : UInt32) (rdfds : Nat → Fd) :
    (construct numThrs maxConns buffSize rdfds 0).Slots where
  pos := by simpa [construct, UInt16.lt_iff_toNat_lt] using hpos
  width := maxConns.toNat_lt
  room := Nat.zero_le _
  count := rfl
  slots := Dealt.nil
  shared _ := rfl
  wsizes _ := rfl
  rsizes _ := rfl
  whole := by simp [construct]
  rdfd i := le_maxSockfd (.inr rfl)
  selected i x hx := by simp [construct] at hx

section

variable {s s' : Pool}

/-- No thread has more sockets than its share. -/
theorem Slots.length_le (hs : s.Slots) {i : Nat} (hi : i < s.numThrs) :
    (s.wthrinfo i).socks.length ≤ share s.numThrs s.maxConns i :=
  hs.slots.length_le_share hi hs.room

/-- The thread whose turn it is has room, unless the pool is full. -/
theorem Slots.has_room (hs : s.Slots) (h : s.numConns ≠ s.maxConns) :
    (s.wthrinfo (s.numConns % s.numThrs)).socks.length + 1 ≤
      share s.numThrs s.maxConns (s.numConns % s.numThrs) := by
  have hi := Nat.mod_lt s.numConns hs.pos
  have hlen := hs.slots.length_row hs.pos
  rw [← hs.count] at hlen
  rw [hlen]
  apply lt_share hi
  have hdiv := Nat.div_add_mod s.numConns s.numThrs
  rw [Nat.mul_comm] at hdiv
  have hroom := hs.room
  have hcount := hs.count
  omega

/-- A thread after its `add_conn`. -/
def thrWithConn (t : ThrInfo) (sock : Fd) : ThrInfo :=
  { t with
      socks := t.socks ++ [sock],
      maxSockfd := if t.maxSockfd < sock then sock else t.maxSockfd }

/-- The pool after an `add_conn` that was accepted. -/
def withConn (s : Pool) (sock : Fd) (addr : Bytes) : Pool :=
  let thrid := s.numConns % s.numThrs
  { s with
      wthrinfo := Function.update s.wthrinfo thrid (thrWithConn (s.wthrinfo thrid) sock),
      rthrinfo := Function.update s.rthrinfo thrid (thrWithConn (s.rthrinfo thrid) sock),
      sockaddrs := Function.update s.sockaddrs s.numConns (some addr),
      numConns := (s.numConns + 1) % 2 ^ 16,
      conns := s.conns ++ [sock] }.ret s.numConns

/-- **`add_conn` is accepted while the pool is not full**: the array of the thread has room. -/
theorem Slots.addConn_eq (hs : s.Slots) (hrun : s.running = false) (h : s.numConns ≠ s.maxConns)
    (sock : Fd) (addr : Bytes) : s.addConn sock addr = some (s.withConn sock addr) := by
  have hroom := hs.has_room h
  have hw : (s.wthrinfo (s.numConns % s.numThrs)).addConn sock =
      some (thrWithConn (s.wthrinfo (s.numConns % s.numThrs)) sock) :=
    if_pos (by rw [hs.wsizes]; exact hroom)
  have hr : (s.rthrinfo (s.numConns % s.numThrs)).addConn sock =
      some (thrWithConn (s.rthrinfo (s.numConns % s.numThrs)) sock) :=
    if_pos (by rw [hs.rsizes, hs.shared]; exact hroom)
  simp only [addConn, withConn, hrun, h, hw, hr, Bool.false_eq_true, if_false]

/-- What holds of the thread that gets the socket and of the others holds of all. -/
theorem forall_update {P : Nat → ThrInfo → Prop} {f : Nat → ThrInfo} {i : Nat} {t : ThrInfo}
    (hf : ∀ j, P j (f j)) (ht : P i t) (j : Nat) : P j (Function.update f i t j) := by
  by_cases hj : j = i
  · subst hj
    rw [Function.update_self]
    exact ht
  · rw [Function.update_of_ne hj]
    exact hf j

/-- **An accepted `add_conn`** deals the socket to the thread whose turn it is. -/
theorem Slots.withConn (hs : s.Slots) (h : s.numConns ≠ s.maxConns) (sock : Fd) (addr : Bytes) :
    (s.withConn sock addr).Slots := by
  have hi := Nat.mod_lt s.numConns hs.pos
  have hbound := hs.room
  have hcount := hs.count
  have hwidth := hs.width
  have hrow : ∀ f : Nat → ThrInfo, (Function.update f (s.numConns % s.numThrs)
      (thrWithConn (f (s.numConns % s.numThrs)) sock) (s.numConns % s.numThrs)).socks =
      (f (s.numConns % s.numThrs)).socks ++ [sock] := fun f => by
    rw [Function.update_self]
    rfl
  have hother : ∀ (f : Nat → ThrInfo) (j : Nat), j ≠ s.numConns % s.numThrs →
      (Function.update f (s.numConns % s.numThrs)
        (thrWithConn (f (s.numConns % s.numThrs)) sock) j).socks = (f j).socks := fun f j hj => by
    rw [Function.update_of_ne hj]
  constructor
  case pos => exact hs.pos
  case width => exact hs.width
  case room =>
    show (s.conns ++ [sock]).length ≤ s.maxConns
    rw [List.length_append, List.length_singleton]
    omega
  case count =>
    show (s.numConns + 1) % 2 ^ 16 = (s.conns ++ [sock]).length
    rw [List.length_append, List.length_singleton, Nat.mod_eq_of_lt (by omega), hcount]
  case slots =>
    apply hs.slots.concat hs.pos
    · rw [← hcount]
      exact hrow s.wthrinfo
    · rw [← hcount]
      exact hother s.wthrinfo
  case shared =>
    intro i
    by_cases hne : i = s.numConns % s.numThrs
    · subst hne
      exact (hrow s.rthrinfo).trans ((congrArg (· ++ [sock]) (hs.shared _)).trans (hrow s.wthrinfo).symm)
    · exact (hother s.rthrinfo i hne).trans ((hs.shared i).trans (hother s.wthrinfo i hne).symm)
  case wsizes =>
    exact forall_update (P := fun i t => t.maxSocks = share s.numThrs s.maxConns i) hs.wsizes
      (hs.wsizes _)
  case rsizes =>
    exact forall_update (P := fun i t => t.maxSocks = share s.numThrs s.maxConns i) hs.rsizes
      (hs.rsizes _)
  case whole =>
    have hsum := sum_rows_concat hi sock (hrow s.wthrinfo) (hother s.wthrinfo)
    exact hsum.trans (congrArg (· + {sock}) hs.whole)
  case rdfd =>
    exact forall_update (P := fun _ t => t.rdfd ≤ t.maxSockfd) hs.rdfd
      (le_maxSockfd (.inl (hs.rdfd _)))
  case selected =>
    refine forall_update (P := fun _ t => ∀ x ∈ t.socks, x ≤ t.maxSockfd) hs.selected ?_
    intro x hx
    rcases List.mem_append.mp hx with hx | hx
    · exact le_maxSockfd (.inl (hs.selected _ x hx))
    · exact le_maxSockfd (.inr (List.mem_singleton.mp hx))

/-! ## Sequences of `add_conn` -/

/-- What `add_conn` returns at its `j`-th call. -/
def addConnRet (maxConns j : Nat) : Int := if j < maxConns then (j : Int) else -1

/-- The pool of `n` pairs of threads and `m` slots after the calls of a list. -/
structure Added (n m : Nat) (calls : List (Fd × Bytes)) (s : Pool) : Prop where
  slots : s.Slots
  threads : s.numThrs = n
  capacity : s.maxConns = m
  running : s.running = false
  conns : s.conns = (calls.take m).map Prod.fst
  addrs : ∀ c, s.sockaddrs c = (calls.take m)[c]?.map Prod.snd
  rets : s.rets = (List.range calls.length).map (addConnRet m)

section

variable {n m : Nat} {calls : List (Fd × Bytes)}

theorem Added.count (hs : s.Added n m calls) : s.numConns = min calls.length m := by
  rw [hs.slots.count, hs.conns, List.length_map, List.length_take, Nat.min_comm]

/-- A call to a full pool changes nothing but what it returns. -/
theorem Added.concat_full (hs : s.Added n m calls) (hfull : s.numConns = m) (sock : Fd)
    (addr : Bytes) : ∃ s', s.addConn sock addr = some s' ∧ s'.Added n m (calls ++ [(sock, addr)]) := by
  have hle : m ≤ calls.length := by
    have hcount := hs.count
    omega
  have htake : (calls ++ [(sock, addr)]).take m = calls.take m :=
    List.take_append_of_le_length hle
  refine ⟨s.ret (-1), ?_, ?_⟩
  · rw [addConn, if_neg (by simp [hs.running]), if_pos (hfull.trans hs.capacity.symm)]
  · constructor
    · exact ⟨hs.slots.pos, hs.slots.width, hs.slots.room, hs.slots.count, hs.slots.slots,
        hs.slots.shared, hs.slots.wsizes, hs.slots.rsizes, hs.slots.whole, hs.slots.rdfd,
        hs.slots.selected⟩
    · exact hs.threads
    · exact hs.capacity
    · exact hs.running
    · exact hs.conns.trans (congrArg _ htake.symm)
    · intro c
      rw [htake]
      exact hs.addrs c
    · show s.rets ++ [-1] = _
      rw [hs.rets, List.length_append, List.length_singleton, List.range_succ, List.map_append,
        List.map_singleton, show addConnRet m calls.length = -1 from if_neg (Nat.not_lt.mpr hle)]

/-- A call to a pool that is not full adds the connection. -/
theorem Added.concat_room (hs : s.Added n m calls) (hroom : s.numConns ≠ m) (sock : Fd)
    (addr : Bytes) : ∃ s', s.addConn sock addr = some s' ∧ s'.Added n m (calls ++ [(sock, addr)]) := by
  have hcount := hs.count
  have hlt : calls.length < m := by omega
  have hnum : s.numConns = calls.length := by omega
  have htake : calls.take m = calls := List.take_of_length_le (Nat.le_of_lt hlt)
  have htake' : (calls ++ [(sock, addr)]).take m = calls ++ [(sock, addr)] :=
    List.take_of_length_le (by rw [List.length_append, List.length_singleton]; omega)
  have hne : s.numConns ≠ s.maxConns := hs.capacity.symm ▸ hroom
  refine ⟨s.withConn sock addr, hs.slots.addConn_eq hs.running hne sock addr, ?_⟩
  constructor
  · exact hs.slots.withConn hne sock addr
  · exact hs.threads
  · exact hs.capacity
  · exact hs.running
  · show s.conns ++ [sock] = _
    rw [htake', hs.conns, htake, List.map_append, List.map_singleton]
  · intro c
    show Function.update s.sockaddrs s.numConns (some addr) c = _
    rw [htake', hnum]
    by_cases hc : c = calls.length
    · subst hc
      rw [Function.update_self, List.getElem?_concat_length]
      rfl
    · rw [Function.update_of_ne hc, hs.addrs c, htake]
      rcases Nat.lt_or_gt_of_ne hc with hlt | hgt
      · rw [List.getElem?_append_left hlt]
      · rw [List.getElem?_eq_none (Nat.le_of_lt hgt), List.getElem?_eq_none (by simp; omega)]
  · show s.rets ++ [(s.numConns : Int)] = _
    rw [hs.rets, List.length_append, List.length_singleton, List.range_succ, List.map_append,
      List.map_singleton, show addConnRet m calls.length = (calls.length : Int) from if_pos hlt, hnum]

theorem Added.concat (hs : s.Added n m calls) (sock : Fd) (addr : Bytes) :
    ∃ s', s.addConn sock addr = some s' ∧ s'.Added n m (calls ++ [(sock, addr)]) := by
  by_cases hfull : s.numConns = m
  · exact hs.concat_full hfull sock addr
  · exact hs.concat_room hfull sock addr

end

/-- **A sequence of `add_conn` calls** never fails an assertion, and leaves the pool as the list of
the calls says. -/
theorem exists_added {numThrs : UInt16} (hpos : 0 < numThrs) (maxConns : UInt16)
    (buffSize : UInt32) (rdfds : Nat → Fd) (calls : List (Fd × Bytes)) :
    ∃ s, (construct numThrs maxConns buffSize rdfds 0).addConns calls = some s ∧
      s.Added numThrs.toNat maxConns.toNat calls := by
  induction calls using List.reverseRecOn with
  | nil =>
      refine ⟨_, rfl, slots_construct hpos maxConns buffSize rdfds, rfl, rfl, rfl, ?_, ?_, rfl⟩
      · simp [construct]
      · simp [construct]
  | append_singleton calls c ih =>
      obtain ⟨s, hrun, hs⟩ := ih
      obtain ⟨s', hcall, hs'⟩ := hs.concat c.1 c.2
      refine ⟨s', ?_, hs'⟩
      exact exec_append_eq_some.mpr ⟨s, hrun, exec_cons_eq_some.mpr ⟨s', hcall, rfl⟩⟩

/-! ## Every run of the pool -/

/-- What every step but an accepted `add_conn` leaves alone. -/
structure SameConns (s s' : Pool) : Prop where
  numThrs : s'.numThrs = s.numThrs
  maxConns : s'.maxConns = s.maxConns
  numConns : s'.numConns = s.numConns
  conns : s'.conns = s.conns
  rthrinfo : s'.rthrinfo = s.rthrinfo
  socks : ∀ i, (s'.wthrinfo i).socks = (s.wthrinfo i).socks
  maxSocks : ∀ i, (s'.wthrinfo i).maxSocks = (s.wthrinfo i).maxSocks

theorem Slots.congr (hs : s.Slots) (h : SameConns s s') : s'.Slots where
  pos := h.numThrs ▸ hs.pos
  width := h.maxConns ▸ hs.width
  room := by
    rw [h.conns, h.maxConns]
    exact hs.room
  count := by
    rw [h.numConns, h.conns]
    exact hs.count
  slots := by
    rw [h.numThrs, h.conns, funext h.socks]
    exact hs.slots
  shared i := by
    rw [h.rthrinfo, h.socks]
    exact hs.shared i
  wsizes i := by
    rw [h.maxSocks, h.numThrs, h.maxConns]
    exact hs.wsizes i
  rsizes i := by
    rw [h.rthrinfo, h.numThrs, h.maxConns]
    exact hs.rsizes i
  whole := by
    simp only [h.socks, h.numThrs, h.conns]
    exact hs.whole
  rdfd := h.rthrinfo ▸ hs.rdfd
  selected := h.rthrinfo ▸ hs.selected

/-- A change of one message queue. -/
theorem sameConns_queue (i : Nat) (q : List MsgT)
    (h1 : s'.numThrs = s.numThrs) (h2 : s'.maxConns = s.maxConns) (h3 : s'.numConns = s.numConns)
    (h4 : s'.conns = s.conns) (h5 : s'.rthrinfo = s.rthrinfo)
    (h6 : s'.wthrinfo = Function.update s.wthrinfo i { s.wthrinfo i with msgq := q }) :
    SameConns s s' where
  numThrs := h1
  maxConns := h2
  numConns := h3
  conns := h4
  rthrinfo := h5
  socks := by
    rw [h6]
    exact forall_update (P := fun j t => t.socks = (s.wthrinfo j).socks) (fun _ => rfl) rfl
  maxSocks := by
    rw [h6]
    exact forall_update (P := fun j t => t.maxSocks = (s.wthrinfo j).maxSocks) (fun _ => rfl) rfl

/-- **One step keeps the slots.** -/
theorem slots_step {l : PoolLabel} (hs : s.Slots) (h : s.step l = some s') : s'.Slots := by
  cases poolTrans_of_step h with
  | addConn hidle hrun hroom hw hr =>
      rename_i sock addr w r
      have hcall : s.step (.addConn sock addr) = s.addConn sock addr := by
        simp only [step, hidle]
      rw [hcall, hs.addConn_eq hrun hroom, Option.some.injEq] at h
      rw [← h]
      exact hs.withConn hroom sock addr
  | thrBroadcast | send | broadcastPush | stopPush | popExit | popWrite =>
      exact hs.congr (sameConns_queue _ _ rfl rfl rfl rfl rfl rfl)
  | _ => exact hs.congr ⟨rfl, rfl, rfl, rfl, rfl, fun _ => rfl, fun _ => rfl⟩

theorem slots_of_exec {numThrs : UInt16} (hpos : 0 < numThrs) (maxConns : UInt16)
    (buffSize : UInt32) (rdfds : Nat → Fd) {ls : List PoolLabel}
    (hrun : exec step (construct numThrs maxConns buffSize rdfds 0) ls = some s) : s.Slots :=
  exec_invariant (fun _ _ _ hs h => slots_step hs h)
    (slots_construct hpos maxConns buffSize rdfds) hrun

/-- `send` accepts the ids of connections, on a running pool. -/
theorem lt_of_send_accepted {cliid : Nat} {p : Payload}
    (h : (s.send cliid p).rets = s.rets ++ [0]) : cliid < s.numConns := by
  unfold send at h
  split_ifs at h with hrun hc
  · simp [ret] at h
  · simp [ret] at h
  · exact Nat.lt_of_not_le hc

/-- The slot of a connection is filled. -/
theorem Slots.slot_lt (hs : s.Slots) {c : Nat} (hc : c < s.numConns) :
    c / s.numThrs < (s.wthrinfo (c % s.numThrs)).socks.length := by
  rw [hs.slots.lt_length_iff (Nat.mod_lt c hs.pos), Nat.mul_comm, Nat.div_add_mod, ← hs.count]
  exact hc

end

/-! ## The placement -/

/-- The pool after a sequence of `add_conn` calls, as its caller sees it. -/
structure Placement (calls : List (Fd × Bytes)) (s : Pool) : Prop where
  /-- The `k`-th call that succeeds returns `k`, and those that succeed are the first `max_conns`. -/
  returned : s.rets = (List.range calls.length).map fun j => if j < s.maxConns then (j : Int) else -1
  succeeded : s.numConns = min calls.length s.maxConns
  /-- Connection `c` is in its slot of its writer and of its reader, with its address. -/
  placed : ∀ c sock addr, c < s.numConns → calls[c]? = some (sock, addr) →
    (s.wthrinfo (c % s.numThrs)).socks[c / s.numThrs]? = some sock ∧
    (s.rthrinfo (c % s.numThrs)).socks[c / s.numThrs]? = some sock ∧ s.sockaddrs c = some addr
  /-- All slots together hold each added socket once and nothing else. -/
  wholeW : ∑ i ∈ Finset.range s.numThrs, ((s.wthrinfo i).socks : Multiset Fd) =
    ((calls.take s.maxConns).map Prod.fst : List Fd)
  wholeR : ∑ i ∈ Finset.range s.numThrs, ((s.rthrinfo i).socks : Multiset Fd) =
    ((calls.take s.maxConns).map Prod.fst : List Fd)
  /-- No thread stores past the end of its array. -/
  inRange : ∀ i, i < s.numThrs → (s.wthrinfo i).socks.length ≤ (s.wthrinfo i).maxSocks ∧
    (s.rthrinfo i).socks.length ≤ (s.rthrinfo i).maxSocks
  /-- `max_sockfd` covers what the reader selects on. -/
  covered : ∀ i, i < s.numThrs → (s.rthrinfo i).rdfd ≤ (s.rthrinfo i).maxSockfd ∧
    ∀ x ∈ (s.rthrinfo i).socks, x ≤ (s.rthrinfo i).maxSockfd

theorem Added.placement {n m : Nat} {calls : List (Fd × Bytes)} {s : Pool}
    (hs : s.Added n m calls) : s.Placement calls := by
  have hslots := hs.slots
  constructor
  case returned =>
    rw [hs.capacity]
    exact hs.rets
  case succeeded =>
    rw [hs.capacity]
    exact hs.count
  case placed =>
    intro c sock addr hc hcall
    have hcm : c < m := by
      have hcount := hs.count
      omega
    have htake : (calls.take m)[c]? = some (sock, addr) := by
      rw [List.getElem?_take, if_pos hcm, hcall]
    have hconn : s.conns[c]? = some sock := by
      rw [hs.conns, List.getElem?_map, htake]
      rfl
    have hslot := (hslots.slots.get hslots.pos c).trans hconn
    refine ⟨hslot, ?_, ?_⟩
    · rw [hslots.shared]
      exact hslot
    · rw [hs.addrs, htake]
      rfl
  case wholeW =>
    rw [hslots.whole, hs.conns, hs.capacity]
  case wholeR =>
    simp only [hslots.shared]
    rw [hslots.whole, hs.conns, hs.capacity]
  case inRange =>
    intro i hi
    rw [hslots.wsizes, hslots.rsizes, hslots.shared]
    exact ⟨hslots.length_le hi, hslots.length_le hi⟩
  case covered => exact fun i _ => ⟨hslots.rdfd i, hslots.selected i⟩

/-- **Connection placement**: for every number of threads and every capacity, every sequence of
`add_conn` calls runs through without a failing assertion and leaves the connections placed; and in
every state that the pool reaches, an accepted `send` names a filled slot of its writer. -/
theorem connection_placement (numThrs : UInt16) (hpos : 0 < numThrs) (maxConns : UInt16)
    (buffSize : UInt32) (rdfds : Nat → Fd) :
    (∀ calls, ∃ s, (construct numThrs maxConns buffSize rdfds 0).addConns calls = some s ∧
      s.numThrs = numThrs.toNat ∧ s.maxConns = maxConns.toNat ∧ s.Placement calls) ∧
    (∀ ls s, exec step (construct numThrs maxConns buffSize rdfds 0) ls = some s →
      ∀ cliid p, (s.send cliid p).rets = s.rets ++ [0] →
        cliid / s.numThrs < (s.wthrinfo (cliid % s.numThrs)).socks.length) := by
  refine ⟨?_, ?_⟩
  · intro calls
    obtain ⟨s, hrun, hs⟩ := exists_added hpos maxConns buffSize rdfds calls
    exact ⟨s, hrun, hs.threads, hs.capacity, hs.placement⟩
  · intro ls s hrun cliid p hsend
    have hslots := slots_of_exec hpos maxConns buffSize rdfds hrun
    exact hslots.slot_lt (lt_of_send_accepted hsend)

/-- Three pairs of threads, room for four connections, five calls. -/
theorem connection_placement_five :
    ∃ s, (construct 3 4 64 (fun i => 3 + i) 0).addConns
        [(10, []), (11, []), (12, []), (13, []), (14, [])] = some s ∧
      s.rets = [0, 1, 2, 3, -1] ∧ (s.rthrinfo 0).socks = [10, 13] ∧
      s.Placement [(10, []), (11, []), (12, []), (13, []), (14, [])] := by
  obtain ⟨s, hrun, -, -, hs⟩ := (connection_placement 3 (by decide) 4 64 (fun i => 3 + i)).1
    [(10, []), (11, []), (12, []), (13, []), (14, [])]
  refine ⟨s, hrun, ?_, ?_, hs⟩
  · have heval : ((construct 3 4 64 (fun i => 3 + i) 0).addConns
        [(10, []), (11, []), (12, []), (13, []), (14, [])]).map Pool.rets =
        some [0, 1, 2, 3, -1] := by decide
    rw [hrun, Option.map_some, Option.some.injEq] at heval
    exact heval
  · have heval : ((construct 3 4 64 (fun i => 3 + i) 0).addConns
        [(10, []), (11, []), (12, []), (13, []), (14, [])]).map (fun s => (s.rthrinfo 0).socks) =
        some [10, 13] := by decide
    rw [hrun, Option.map_some, Option.some.injEq] at heval
    exact heval

end Pool

end CommTest.Socket
