import CommTest.Zmq.Provenance

/-!
# Payload transparency: control and data on one socket

The comm thread tells a handshake message from a payload by its content: on the ROUTER socket by
comparing `len` and all ten bytes with `sub_hello`, on the SUB socket by comparing nine bytes with
`pub_hello`, whatever the length of the payload. And it keeps the length of what it takes in an
`int`: of a payload of `2^31` bytes or more it sends on a first part, or it ends.

* `TakesPayload` is the application payload that a step takes: the payload a sending comm thread
  takes from its queues, or one whose length makes its receive fail; and at the receiving comm thread
  one from a connection on which the hello has been taken, or from a subscription.
* `Forwards` is transparency of one step: the test reads inside the payload only, and the payload
  goes as it is to the connection, to the subscribers or to `taskq`.
* `SetApart` is the condition on the payload: it has fewer than `2^31` bytes; on the ROUTER socket it
  is not the ten bytes of a `sub_hello`; on the SUB socket it has at least nine bytes and does not
  begin with `pub_hello`.
* `transparent_iff_setApart`: all steps of a run are transparent if and only if all the payloads
  taken in it are set apart, and then the payloads taken are exactly the bytes that were passed to
  `send` for this node, or to `publish` for the group (`Handed`).
* `payloadSetApart_of_innocent` gives the condition from the calls of a run.
-/

set_option linter.unusedSectionVars false

namespace CommTest.Zmq

open FairQueue Lts

variable {N τ : Type} [DecidableEq N] [DecidableEq τ]

namespace CommHandler

/-! ## One step -/

/-- The application payload `m` that a step of the comm thread takes. `c` is the identity or the
group it is for, at the sender, and the id it goes to `taskq` under, at the receiver. A payload whose
length is negative as an `int` is taken by the receive that fails over it. -/
inductive TakesPayload (s : CommHandler τ) : CommLabel τ → Cliid → Msg τ → Prop
  | sent {l c m} (h : s.sendsOn l = some (c, m)) : TakesPayload s l c m
  | refusedSend {rest t c m q} (hpc : s.pc = .blocks (.msgq :: rest))
      (hpop : pop t s.msgq = some ((c, m), q)) (hneg : recvLen m.data < 0) : TakesPayload s .recvFail c m
  | refusedPublish {rest t c m q} (hpc : s.pc = .blocks (.pubSend :: rest))
      (hpop : pop t s.pubSendpull = some ((c, m), q)) (hm : m.origin ≠ .comm)
      (hneg : recvLen m.data < 0) : TakesPayload s .recvFail c m
  | routed {rest c m q} (hpc : s.pc = .blocks (.router :: rest))
      (hpop : pop c s.routerIn = some (m, q)) (hm : m.origin ≠ .comm)
      (hmap : s.clientmap c = some true) : TakesPayload s (.router c) c m
  | subscribed {rest behind junk sent gid m q} (hpc : s.pc = .blocks (.subSock :: rest))
      (hq : s.subSock = (gid, m) :: q) (hm : m.origin ≠ .comm) :
      TakesPayload s (.subSock behind junk sent) (ide2i gid) m

/-- How many bytes of the received buffer the test for a handshake message compares: on the ROUTER
socket only a payload of the right `len` is compared. -/
def comparedBytes (l : CommLabel τ) (data : Bytes) : Nat :=
  match l with
  | .router _ =>
      if recvLen data = Int32.ofNat commHandlerSubInit.length then commHandlerSubInit.length else 0
  | .subSock _ _ _ => commHandlerPubInit.length
  | _ => 0

/-- The step from `s` to `s'` hands exactly `m` on: to the connection with `c`, to the subscribers of
`c`, or to the push on `taskq` under `c`. -/
def HandsOn (s s' : CommHandler τ) (l : CommLabel τ) (c : Cliid) (m : Msg τ) : Prop :=
  match l with
  | .msgq _ _ => s'.routerOut = s.routerOut ++ [(c, m)]
  | .pubSend _ _ => s'.pubOut = s.pubOut ++ [(c, m)]
  | .router _ | .subSock _ _ _ => ∃ rest, s'.pc = .pushTask c m rest
  | _ => False

/-- **Transparency of one step**: the test compares bytes of the payload only, the comm thread hands
exactly this payload on, and where it goes to push it that is what a push puts on `taskq`. -/
structure Forwards (hwm : Nat) (s : CommHandler τ) (l : CommLabel τ) (c : Cliid) (m : Msg τ) :
    Prop where
  inside : comparedBytes l m.data ≤ m.data.length
  handed : ∀ s', s.commStep hwm l = some s' → s.HandsOn s' l c m
  pushed : ∀ s' t s'', s.commStep hwm l = some s' → s'.commStep hwm (.push (some t)) = some s'' →
    s''.taskLog = s.taskLog ++ [(c, m)]

/-- A payload that is sent on whole, and cannot be taken for a handshake message of the socket the
step reads. -/
def SetApart (l : CommLabel τ) (data : Bytes) : Prop :=
  data.length < 2 ^ 31 ∧
    match l with
    | .router _ => data ≠ commHandlerSubInit
    | .subSock _ _ _ => commHandlerPubInit.length ≤ data.length ∧ ¬ commHandlerPubInit <+: data
    | _ => True

/-- The two cases of `sendsOn`. -/
theorem sendsOn_eq_some {s : CommHandler τ} {l : CommLabel τ} {c : Cliid} {m : Msg τ}
    (h : s.sendsOn l = some (c, m)) :
    (∃ rest t q, s.pc = .blocks (.msgq :: rest) ∧ l = .msgq t true ∧
        pop t s.msgq = some ((c, m), q)) ∨
      (∃ rest t q, s.pc = .blocks (.pubSend :: rest) ∧ l = .pubSend t true ∧
        pop t s.pubSendpull = some ((c, m), q) ∧ ¬ c < 0 ∧ m.origin ≠ .comm) := by
  unfold sendsOn at h
  split at h
  · rename_i rest t hpc
    obtain ⟨⟨e, q⟩, hpop, rfl⟩ := Option.map_eq_some_iff.mp h
    exact .inl ⟨rest, t, q, hpc, rfl, hpop⟩
  · rename_i rest t hpc
    split at h
    · rename_i gid m' q hpop
      split_ifs at h with hc
      cases h
      exact .inr ⟨rest, t, q, hpc, rfl, hpop, fun hneg => hc (.inl hneg), fun ho => hc (.inr ho)⟩
    · cases h
  · cases h

/-- A push puts the held task on `taskq`. -/
theorem taskLog_of_push {hwm : Nat} {s s' : CommHandler τ} {c : Cliid} {m : Msg τ}
    {rest : List Block} {t : τ} (hpc : s.pc = .pushTask c m rest)
    (h : s.commStep hwm (.push (some t)) = some s') : s'.taskLog = s.taskLog ++ [(c, m)] := by
  simp only [commStep, hpc, pushTaskStep] at h
  split_ifs at h
  cases h
  rfl

/-- Between two blocks nothing is pushed. -/
theorem no_push_of_blocks {hwm : Nat} {s s' : CommHandler τ} {bs : List Block} {t : τ}
    (hpc : s.pc = .blocks bs) : s.commStep hwm (.push (some t)) ≠ some s' := by
  cases bs with
  | nil => simp [commStep, hpc]
  | cons b rest => cases b <;> simp [commStep, hpc]

/-- A step after which the thread is between two blocks and that has handed the payload on. -/
theorem forwards_of_sent {hwm : Nat} {s s' : CommHandler τ} {l : CommLabel τ} {c : Cliid} {m : Msg τ}
    {bs : List Block} (hin : comparedBytes l m.data ≤ m.data.length)
    (h : s.commStep hwm l = some s') (hpc : s'.pc = .blocks bs) (hhands : s.HandsOn s' l c m) :
    s.Forwards hwm l c m := by
  refine ⟨hin, ?_, ?_⟩
  · intro u hu
    rw [h, Option.some.injEq] at hu
    exact hu ▸ hhands
  · intro u t s'' hu hpush
    rw [h, Option.some.injEq] at hu
    subst hu
    exact absurd hpush (no_push_of_blocks hpc)

/-- A step that goes to push the payload and has pushed nothing itself. -/
theorem forwards_of_task {hwm : Nat} {s s' : CommHandler τ} {l : CommLabel τ} {c : Cliid} {m : Msg τ}
    {rest : List Block} (hin : comparedBytes l m.data ≤ m.data.length)
    (h : s.commStep hwm l = some s') (hpc : s'.pc = .pushTask c m rest)
    (hhands : s.HandsOn s' l c m) (hlog : s'.taskLog = s.taskLog) : s.Forwards hwm l c m := by
  refine ⟨hin, ?_, ?_⟩
  · intro u hu
    rw [h, Option.some.injEq] at hu
    exact hu ▸ hhands
  · intro u t s'' hu hpush
    rw [h, Option.some.injEq] at hu
    subst hu
    rw [taskLog_of_push hpc hpush, hlog]

/-- What the `int` leaves of a message is the message when it is short. -/
theorem forwarded_eq_iff {m : Msg τ} : m.forwarded = m ↔ m.data.length < 2 ^ 31 := by
  refine ⟨fun h => ?_, Msg.forwarded_of_lt⟩
  have hdata : forwarded m.data = m.data := congrArg Msg.data h
  exact forwarded_eq_self_iff.mp hdata

/-- Nine bytes compared inside a payload decide whether it begins with `pub_hello`. -/
theorem take_append_eq_pubInit {data behind : Bytes}
    (hlen : commHandlerPubInit.length ≤ data.length) :
    (data ++ behind).take commHandlerPubInit.length = commHandlerPubInit ↔
      commHandlerPubInit <+: data := by
  rw [List.take_append_of_le_length hlen, List.prefix_iff_eq_take]
  exact eq_comm

/-- The comparison with `sub_hello` stays inside the payload. -/
theorem comparedBytes_router_le {c : Cliid} (data : Bytes) :
    comparedBytes (.router c : CommLabel τ) data ≤ data.length := by
  unfold comparedBytes
  split_ifs with hlen
  · have hten : (Int32.ofNat commHandlerSubInit.length).toNatClampNeg = commHandlerSubInit.length := by
      decide
    rw [← hten, ← hlen]
    exact toNatClampNeg_recvLen_le data
  · exact Nat.zero_le _

/-- The sender's block is transparent exactly for the payloads that its `int` leaves whole. -/
theorem forwards_send_iff {hwm : Nat} {s s' : CommHandler τ} {l : CommLabel τ} {c : Cliid} {m : Msg τ}
    (hsend : s.sendsOn l = some (c, m)) (h : s.commStep hwm l = some s') :
    s.Forwards hwm l c m ↔ SetApart l m.data := by
  have hstep := h
  rcases sendsOn_eq_some hsend with ⟨rest, t, q, hpc, rfl, hpop⟩ | ⟨rest, t, q, hpc, rfl, hpop, hgid, -⟩
  · simp only [commStep, hpc, msgqBlock, hpop, if_true] at h
    split_ifs at h
    cases h
    constructor
    · intro hf
      have hout : s.routerOut ++ [(c, m.forwarded)] = s.routerOut ++ [(c, m)] := hf.handed _ hstep
      rw [List.append_cancel_left_eq] at hout
      exact ⟨forwarded_eq_iff.mp (congrArg Prod.snd (List.singleton_inj.mp hout)), trivial⟩
    · intro hd
      refine forwards_of_sent (Nat.zero_le _) hstep rfl ?_
      show s.routerOut ++ [(c, m.forwarded)] = s.routerOut ++ [(c, m)]
      rw [forwarded_eq_iff.mpr hd.1]
  · simp only [commStep, hpc, pubSendBlock, hpop, if_neg hgid, if_true] at h
    split_ifs at h
    cases h
    constructor
    · intro hf
      have hout : s.pubOut ++ [(c, m.forwarded)] = s.pubOut ++ [(c, m)] := hf.handed _ hstep
      rw [List.append_cancel_left_eq] at hout
      exact ⟨forwarded_eq_iff.mp (congrArg Prod.snd (List.singleton_inj.mp hout)), trivial⟩
    · intro hd
      refine forwards_of_sent (Nat.zero_le _) hstep rfl ?_
      show s.pubOut ++ [(c, m.forwarded)] = s.pubOut ++ [(c, m)]
      rw [forwarded_eq_iff.mpr hd.1]

/-- A receive that fails over the length of a payload hands nothing on, and no such payload is set
apart. -/
theorem forwards_refused_iff {hwm : Nat} {s s' : CommHandler τ} {c : Cliid} {m : Msg τ}
    (hneg : recvLen m.data < 0) (h : s.commStep hwm .recvFail = some s') :
    s.Forwards hwm .recvFail c m ↔ SetApart (.recvFail : CommLabel τ) m.data :=
  ⟨fun hf => (hf.handed _ h).elim, fun hd => absurd hneg (recvLen_nonneg_of_lt hd.1)⟩

theorem forwards_routed_iff {hwm : Nat} {s s' : CommHandler τ} {rest : List Block} {c : Cliid}
    {m : Msg τ} {q : List (Cliid × Msg τ)} (hpc : s.pc = .blocks (.router :: rest))
    (hpop : pop c s.routerIn = some (m, q)) (hmap : s.clientmap c = some true)
    (h : s.commStep hwm (.router c) = some s') :
    s.Forwards hwm (.router c) c m ↔ SetApart (.router c : CommLabel τ) m.data := by
  have hstep := h
  simp only [commStep, hpc, routerBlock, hpop, routerDest, hmap] at h
  split_ifs at h with hneg hsub
  · cases h
    constructor
    · intro hf
      obtain ⟨rest', hpc'⟩ := hf.handed _ hstep
      cases hpc'
    · intro hd
      rw [isSubInit_iff, forwarded_of_lt hd.1] at hsub
      exact absurd hsub hd.2
  · cases h
    rw [isSubInit_iff] at hsub
    constructor
    · intro hf
      obtain ⟨rest', hpc'⟩ := hf.handed _ hstep
      have hsame : m.forwarded = m := (CommPc.pushTask.inj hpc').2.1
      have hlen := forwarded_eq_iff.mp hsame
      exact ⟨hlen, forwarded_of_lt hlen ▸ hsub⟩
    · intro hd
      have hpush : CommPc.pushTask c m.forwarded rest = .pushTask c m rest := by
        rw [forwarded_eq_iff.mpr hd.1]
      exact forwards_of_task (comparedBytes_router_le _) hstep hpush ⟨rest, hpush⟩ rfl

theorem forwards_subscribed_iff {hwm : Nat} {s s' : CommHandler τ} {rest : List Block}
    {behind : Bytes} {junk gid : Cliid} {sent : Bool} {m : Msg τ} {q : List (Cliid × Msg τ)}
    (hpc : s.pc = .blocks (.subSock :: rest)) (hq : s.subSock = (gid, m) :: q)
    (h : s.commStep hwm (.subSock behind junk sent) = some s') :
    s.Forwards hwm (.subSock behind junk sent) (ide2i gid) m ↔
      SetApart (.subSock behind junk sent : CommLabel τ) m.data := by
  have hstep := h
  simp only [commStep, hpc, subSockBlock, hq] at h
  constructor
  · intro hf
    have hlen : commHandlerPubInit.length ≤ m.data.length := hf.inside
    obtain ⟨rest', hpc'⟩ := hf.handed _ hstep
    split_ifs at h with hneg hpub
    · cases h
      cases hpc'
    · cases h
      cases hpc'
    · cases h
      have hsame : m.forwarded = m := (CommPc.pushTask.inj hpc').2.1
      exact ⟨forwarded_eq_iff.mp hsame, hlen,
        fun hpre => hpub ((take_append_eq_pubInit hlen).mpr hpre)⟩
  · rintro ⟨hshort, hlen, hpre⟩
    rw [if_neg (recvLen_nonneg_of_lt hshort),
      if_neg fun htake => hpre ((take_append_eq_pubInit hlen).mp htake)] at h
    cases h
    have hpush : CommPc.pushTask (ide2i gid) m.forwarded rest = .pushTask (ide2i gid) m rest := by
      rw [forwarded_eq_iff.mpr hshort]
    exact forwards_of_task hlen hstep hpush ⟨rest, hpush⟩ rfl

/-- **A step is transparent exactly when its payload is set apart.** -/
theorem forwards_iff_setApart {hwm : Nat} {s s' : CommHandler τ} {l : CommLabel τ} {c : Cliid}
    {m : Msg τ} (htake : s.TakesPayload l c m) (h : s.commStep hwm l = some s') :
    s.Forwards hwm l c m ↔ SetApart l m.data := by
  cases htake with
  | sent hsend => exact forwards_send_iff hsend h
  | refusedSend hpc hpop hneg | refusedPublish hpc hpop hm hneg => exact forwards_refused_iff hneg h
  | routed hpc hpop hm hmap => exact forwards_routed_iff hpc hpop hmap h
  | subscribed hpc hq hm => exact forwards_subscribed_iff hpc hq h

end CommHandler

/-! ## Runs -/

/-- The step forwards the payload it takes. -/
def Transparent (hwm : Nat) (w : N → CommHandler τ) : NetLabel N τ → Prop
  | .comm n l => ∀ c m, (w n).TakesPayload l c m → (w n).Forwards hwm l c m
  | _ => True

/-- The payload that the step takes is set apart. -/
def PayloadSetApart (w : N → CommHandler τ) : NetLabel N τ → Prop
  | .comm n l => ∀ c m, (w n).TakesPayload l c m → CommHandler.SetApart l m.data
  | _ => True

/-- The bytes `d` that node `n` takes for or under `c` come from an application: at the sender one of
its threads passed them to `send` or `publish` for `c`; at the receiver a thread passed them to `send`
for this node and `c` is its own node, or to `publish` for the group `c`. -/
def Handed (ext : N → Cliid) (home : τ → N) (ls : List (NetLabel N τ)) (n : N) (l : CommLabel τ)
    (c : Cliid) (d : Bytes) : Prop :=
  match l with
  | .msgq _ _ => ∃ t x, home t = n ∧ ide2i x = c ∧ .app t (.send x d) ∈ ls
  | .pubSend _ _ => ∃ t, home t = n ∧ .app t (.publish c d) ∈ ls
  | .router _ => ∃ t x, c = nodeKey ext (home t) ∧ ide2i x = nodeKey ext n ∧ .app t (.send x d) ∈ ls
  | .subSock _ _ _ => ∃ t gid, c = ide2i gid ∧ .app t (.publish gid d) ∈ ls
  | _ => Passed ls d

/-- A payload that is passed to `send` or `publish` and is set apart wherever it is taken. -/
def Innocent : NetLabel N τ → Prop
  | .app _ (.send _ data) => data.length < 2 ^ 31 ∧ data ≠ commHandlerSubInit
  | .app _ (.publish _ data) => data.length < 2 ^ 31 ∧
      commHandlerPubInit.length ≤ data.length ∧ ¬ commHandlerPubInit <+: data
  | _ => True

section

variable {ext : N → Cliid} {home : τ → N} {ls : List (NetLabel N τ)} {n : N} {s : CommHandler τ}

/-- What waits in the queues of a sender was passed by one of its threads. -/
theorem sendsOn_source {R : Bytes → Prop} (hs : SourcedBy R (nodeKey ext) home ls n s)
    {l : CommLabel τ} {c : Cliid} {m : Msg τ} (h : s.sendsOn l = some (c, m)) :
    Handed ext home ls n l c m.data := by
  rcases CommHandler.sendsOn_eq_some h with ⟨rest, t, q, -, rfl, hpop⟩ | ⟨rest, t, q, -, rfl, hpop, -, hm⟩
  · obtain ⟨u, x, -, hhome, hdest, hmem⟩ := hs.queued _ (mem_of_pop hpop)
    exact ⟨u, x, hhome, hdest, hmem⟩
  · cases hs.pubQueued _ (mem_of_pop hpop) with
    | announcement ho => exact absurd ho hm
    | published hfrom =>
        obtain ⟨u, -, hhome, hmem⟩ := hfrom
        exact ⟨u, hhome, hmem⟩

/-- A payload that is taken is one that was handed in, where only short ones are sent on. -/
theorem takes_source (hs : SourcedBy (fun d => d.length < 2 ^ 31) (nodeKey ext) home ls n s)
    {l : CommLabel τ} {c : Cliid} {m : Msg τ} (h : s.TakesPayload l c m) :
    Handed ext home ls n l c m.data := by
  cases h with
  | sent h => exact sendsOn_source hs h
  | refusedSend hpc hpop hneg =>
      obtain ⟨t, x, -, -, -, hmem⟩ := hs.queued _ (mem_of_pop hpop)
      exact ⟨t, x, .inl hmem⟩
  | refusedPublish hpc hpop hm hneg =>
      cases hs.pubQueued _ (mem_of_pop hpop) with
      | announcement ho => exact absurd ho hm
      | published hfrom =>
          obtain ⟨t, -, -, hmem⟩ := hfrom
          exact ⟨t, c, .inr hmem⟩
  | routed hpc hpop hm hmap =>
      obtain ⟨a, ha, hfrom⟩ := hs.inbox _ (mem_of_pop hpop)
      cases hfrom with
      | hello ho | reply ho => exact absurd ho hm
      | sent hsent hshort hsame =>
          obtain ⟨t, x, -, hhome, hdest, hmem⟩ := hsent
          rw [Msg.forwarded_of_lt hshort] at hsame
          refine ⟨t, x, by rw [hhome]; exact ha, hdest, ?_⟩
          rw [show m = _ from hsame]
          exact hmem
  | subscribed hpc hq hm =>
      rename_i rest behind junk sent gid q
      obtain ⟨a, hfrom⟩ := hs.arrived (gid, m) (hq ▸ List.mem_cons_self)
      cases hfrom with
      | announcement ho => exact absurd ho hm
      | published hsent hshort hsame =>
          obtain ⟨t, -, -, hmem⟩ := hsent
          rw [Msg.forwarded_of_lt hshort] at hsame
          refine ⟨t, gid, rfl, ?_⟩
          rw [show m = _ from hsame]
          exact hmem

/-- What was handed in by innocent calls is set apart. -/
theorem Handed.setApart {l : CommLabel τ} {c : Cliid} {d : Bytes} (h : Handed ext home ls n l c d)
    (hcalls : ∀ l ∈ ls, Innocent l) : CommHandler.SetApart l d := by
  have hshort : Passed ls d → d.length < 2 ^ 31 := by
    rintro ⟨t, x, hmem | hmem⟩
    · exact (hcalls _ hmem).1
    · exact (hcalls _ hmem).1
  cases l with
  | msgq t sent =>
      obtain ⟨u, x, -, -, hmem⟩ := h
      exact ⟨hshort ⟨u, x, .inl hmem⟩, trivial⟩
  | pubSend t ok =>
      obtain ⟨u, -, hmem⟩ := h
      exact ⟨hshort ⟨u, c, .inr hmem⟩, trivial⟩
  | router c' =>
      obtain ⟨u, x, -, -, hmem⟩ := h
      exact hcalls _ hmem
  | subSock behind junk sent =>
      obtain ⟨u, gid, -, hmem⟩ := h
      exact hcalls _ hmem
  | _ => exact ⟨hshort h, trivial⟩

variable {hwm : Nat} {acceptConns : N → Bool} {w : N → CommHandler τ}

/-- In a run whose payloads are set apart only short payloads are under way. -/
theorem sourcedBy_of_setApart
    (hok : Meets (netStep ext home hwm) PayloadSetApart (netInit τ ext acceptConns) ls)
    (hrun : exec (netStep ext home hwm) (netInit τ ext acceptConns) ls = some w) (n : N) :
    SourcedBy (fun d => d.length < 2 ^ 31) (nodeKey ext) home ls n (w n) := by
  have hmem : Meets (netStep ext home hwm) (fun _ l => l ∈ ls) (netInit τ ext acceptConns) ls :=
    meets_of_forall_mem fun l hl _ => hl
  have hstep : ∀ (v : N → CommHandler τ) (l : NetLabel N τ) (v' : N → CommHandler τ),
      (∀ x, SourcedBy (fun d => d.length < 2 ^ 31) (nodeKey ext) home ls x (v x)) →
      PayloadSetApart v l ∧ l ∈ ls → netStep ext home hwm v l = some v' →
      ∀ x, SourcedBy (fun d => d.length < 2 ^ 31) (nodeKey ext) home ls x (v' x) := by
    intro v l v' hv hl h
    refine sourcedBy_step hl.2 ?_ hv h
    cases l with
    | comm x l => exact fun c m hsend _ => (hl.1 c m (.sent hsend)).1
    | _ => trivial
  exact exec_invariant_of_meets hstep (sourced_init acceptConns) (hok.and hmem) hrun n

/-- **The payloads of innocent calls are set apart wherever they are taken.** -/
theorem payloadSetApart_of_innocent (hcalls : ∀ l ∈ ls, Innocent l)
    (hrun : exec (netStep ext home hwm) (netInit τ ext acceptConns) ls = some w) :
    Meets (netStep ext home hwm) PayloadSetApart (netInit τ ext acceptConns) ls := by
  have hmem : Meets (netStep ext home hwm) (fun _ l => l ∈ ls) (netInit τ ext acceptConns) ls :=
    meets_of_forall_mem fun l hl _ => hl
  have hstep : ∀ (v : N → CommHandler τ) (l : NetLabel N τ) (v' : N → CommHandler τ),
      (∀ x, SourcedBy (fun d => d.length < 2 ^ 31) (nodeKey ext) home ls x (v x)) →
      l ∈ ls → netStep ext home hwm v l = some v' →
      ∀ x, SourcedBy (fun d => d.length < 2 ^ 31) (nodeKey ext) home ls x (v' x) := by
    intro v l v' hv hl h
    refine sourcedBy_step hl ?_ hv h
    cases l with
    | comm x l => exact fun c m hsend _ => ((sendsOn_source (hv x) hsend).setApart hcalls).1
    | _ => trivial
  refine Meets.of_invariant hstep ?_ (sourced_init acceptConns) hrun hmem
  intro v l v' hv hl h
  cases l with
  | comm x l => exact fun c m htake => (takes_source (hv x) htake).setApart hcalls
  | _ => trivial

end

/-- **Payloads are transparent exactly in the runs in which they are set apart from the handshake and
fit in an `int`.** In any network and any run, every payload that a comm thread takes from its queues,
over an established connection or from a subscription goes on unchanged, at the receiver to `taskq`,
by a test that reads inside it, if and only if every payload taken has fewer than `2^31` bytes, none
taken from a ROUTER socket is a `sub_hello` and every payload taken from a SUB socket has nine bytes
or more and does not begin with `pub_hello`; and then the payloads taken are the bytes handed to
`send` for the node or to `publish` for the group. -/
theorem transparent_iff_setApart (ext : N → Cliid) (home : τ → N) (hwm : Nat)
    (acceptConns : N → Bool) (ls : List (NetLabel N τ)) (w : N → CommHandler τ)
    (hrun : exec (netStep ext home hwm) (netInit τ ext acceptConns) ls = some w) :
    (Meets (netStep ext home hwm) (Transparent hwm) (netInit τ ext acceptConns) ls ↔
      Meets (netStep ext home hwm) PayloadSetApart (netInit τ ext acceptConns) ls) ∧
    (Meets (netStep ext home hwm) PayloadSetApart (netInit τ ext acceptConns) ls →
      ∀ n l c m, (w n).TakesPayload l c m → Handed ext home ls n l c m.data) := by
  have hiff : ∀ (v : N → CommHandler τ) (l : NetLabel N τ) (v' : N → CommHandler τ),
      netStep ext home hwm v l = some v' → (Transparent hwm v l ↔ PayloadSetApart v l) := by
    intro v l v' h
    cases l with
    | comm n l =>
        obtain ⟨s, hs, -⟩ := Option.map_eq_some_iff.mp h
        refine forall_congr' fun c => forall_congr' fun m => forall_congr' fun htake => ?_
        exact CommHandler.forwards_iff_setApart htake hs
    | _ => exact Iff.rfl
  refine ⟨⟨?_, ?_⟩, ?_⟩
  · exact Meets.of_invariant (fun _ _ _ _ _ _ => trivial)
      (fun v l v' _ hok h => (hiff v l v' h).mp hok) trivial hrun
  · exact Meets.of_invariant (fun _ _ _ _ _ _ => trivial)
      (fun v l v' _ hok h => (hiff v l v' h).mpr hok) trivial hrun
  · intro hok n l c m htake
    exact takes_source (sourcedBy_of_setApart hok hrun n) htake

/-- Node 2 (`false`) connects to node 3 (`true`) and sends it `d`, which arrives behind the hello.
-/
def sendOnly (d : Bytes) : List (NetLabel Bool Bool) :=
  [.comm false (.startup true), .comm false (.startup true), .comm false (.startup true),
    .ctor false .relock, .ctor false .unlock,
    .comm true (.startup true), .comm true (.startup true), .comm true (.startup true),
    .comm true (.startup true), .ctor true .relock, .ctor true .unlock,
    .app false (.connectTo [104] [49] 3), .app false .lock, .app false (.sendReq true),
    .comm false (.poll true), .comm false (.conn false [0] true), .linkUp false true,
    .comm false (.hello true), .app false .relock, .app false .unlock, .app false .test,
    .app false (.send 3 d), .app false .test, .comm false (.poll true),
    .comm false (.msgq false true), .transfer false true, .comm true (.poll true),
    .comm true (.router (ide2i 2)), .transfer false true, .comm true (.poll true)]

/-- A payload of one byte: the run meets the condition and the byte is forwarded. -/
theorem transparent_sendOnly :
    ∃ w : Bool → CommHandler Bool,
      exec (netStep (fun b => if b then 3 else 2) id 10)
        (netInit Bool (fun b => if b then 3 else 2) id)
        (sendOnly [104] ++ [.comm true (.router (ide2i 2))]) = some w ∧
      (w true).pc = .pushTask (ide2i 2) ⟨[104], .send false⟩ [] ∧
      Meets (netStep (fun b => if b then 3 else 2) id 10) (Transparent 10)
        (netInit Bool (fun b => if b then 3 else 2) id)
        (sendOnly [104] ++ [.comm true (.router (ide2i 2))]) := by
  obtain ⟨w, hrun, hw⟩ := exists_exec (netStep (fun b => if b then 3 else 2) id 10)
    (netInit Bool (fun b => if b then 3 else 2) id)
    (sendOnly [104] ++ [.comm true (.router (ide2i 2))])
    (fun w => (w true).pc = .pushTask (ide2i 2) ⟨[104], .send false⟩ []) (by decide)
  refine ⟨w, hrun, of_decide_eq_true hw, ?_⟩
  have hcalls : ∀ l ∈ sendOnly [104] ++ [.comm true (.router (ide2i 2))], Innocent l := by
    simp [sendOnly, Innocent]
    decide
  exact (transparent_iff_setApart _ id 10 id _ w hrun).1.mpr (payloadSetApart_of_innocent hcalls hrun)

/-- The application sends the ten bytes `sub_hello` with their terminator: the receiving comm thread
takes them for the answer of a subscriber and they go to `suberq`. -/
theorem not_transparent_subHello :
    ∃ (w : Bool → CommHandler Bool) (s : CommHandler Bool),
      exec (netStep (fun b => if b then 3 else 2) id 10)
        (netInit Bool (fun b => if b then 3 else 2) id) (sendOnly commHandlerSubInit) = some w ∧
      (w true).TakesPayload (.router (ide2i 2)) (ide2i 2) ⟨commHandlerSubInit, .send false⟩ ∧
      (w true).commStep 10 (.router (ide2i 2)) = some s ∧
      s.pc = .pushSuber (ide2i 2) ⟨commHandlerSubInit, .send false⟩ [] ∧
      ¬ Transparent 10 w (.comm true (.router (ide2i 2))) := by
  obtain ⟨w, hrun, hw⟩ := exists_exec (netStep (fun b => if b then 3 else 2) id 10)
    (netInit Bool (fun b => if b then 3 else 2) id) (sendOnly commHandlerSubInit)
    (fun w => (w true).pc = .blocks [.router] ∧ (w true).clientmap (ide2i 2) = some true ∧
      pop (ide2i 2) (w true).routerIn = some (⟨commHandlerSubInit, .send false⟩, []) ∧
      ((w true).commStep 10 (.router (ide2i 2))).map (fun s => s.pc) =
        some (.pushSuber (ide2i 2) ⟨commHandlerSubInit, .send false⟩ [])) (by decide)
  simp only [decide_eq_true_eq] at hw
  obtain ⟨hblocks, hmap, hpop, hpc⟩ := hw
  obtain ⟨s, hs, hpc⟩ := Option.map_eq_some_iff.mp hpc
  have htake : (w true).TakesPayload (.router (ide2i 2)) (ide2i 2) ⟨commHandlerSubInit, .send false⟩ :=
    .routed hblocks hpop (by simp) hmap
  refine ⟨w, s, hrun, htake, hs, hpc, ?_⟩
  intro htrans
  exact ((CommHandler.forwards_iff_setApart htake hs).mp (htrans _ _ htake)).2 rfl

end CommTest.Zmq
