import CommTest.Zmq.Demux
import CommTest.Zmq.Unicast

/-!
# A network of `comm_handler` nodes

Any set `N` of nodes, each a `CommHandler` with its comm thread and its application threads, and the
ZeroMQ connections between them. `ext n` is the external id of node `n` and `home t` the node of
thread `t`.

* `netStep` runs one node, brings a connection up that a node has asked for (from then on both
  ROUTER sockets know each other's identity), carries the oldest message of `a` for `b` over, or
  delivers a published message to a subscriber. Connections lose, duplicate and reorder nothing; the
  address of a connect request is taken to be the one of the node it names.
* `NetTrans` lists what a step can do, one constructor for each kind; every invariant of the network
  is proved by cases on it.
* `portStep_of_commStep`, `portStep_of_appStep`: seen through their ports, the nodes take the steps
  of `PortStep`, as long as no message is lost in a failing send.
* `Receipts` is the bookkeeping behind `recv`: every item of `taskq` is given out at most once.
* `unicast_delivery` puts the two together, for threads that send `Plain` payloads only:
  `not_unicastDelivery_long` is a run in which a payload of `2^32 + 5` bytes arrives as five.
-/

set_option linter.unusedSectionVars false

namespace CommTest.Zmq

open FairQueue Lts

variable {N τ : Type} [DecidableEq N] [DecidableEq τ]

/-! ## The system -/

/-- The steps of the network: of the threads of a node, of the monitor of its ROUTER socket, of a
connection between two nodes, and of a subscription. -/
inductive NetLabel (N τ : Type)
  | comm (n : N) (l : CommLabel τ)
  | app (t : τ) (l : AppLabel)
  | ctor (n : N) (l : CtorLabel)
  | monitor (n : N) (e : MonitorEvent)
  | linkUp (a b : N)
  | transfer (a b : N)
  | multicast (a b : N) (gid : Cliid) (m : Msg τ)

/-- The identity of the ROUTER socket of node `n`. -/
def nodeKey (ext : N → Cliid) (n : N) : Cliid := ide2i (ext n)

/-- All nodes constructed and nothing sent. -/
def netInit (τ : Type) (ext : N → Cliid) (acceptConns : N → Bool) : N → CommHandler τ :=
  fun n => CommHandler.init τ (ext n) (acceptConns n)

/-- One step of the network. -/
def netStep (ext : N → Cliid) (home : τ → N) (hwm : Nat) (w : N → CommHandler τ) :
    NetLabel N τ → Option (N → CommHandler τ)
  | .comm n l => ((w n).step hwm (.comm l)).map (Function.update w n)
  | .app t l => ((w (home t)).step hwm (.app t l)).map (Function.update w (home t))
  | .ctor n l => ((w n).step hwm (.ctor l)).map (Function.update w n)
  | .monitor n e => ((w n).step hwm (.env (.monitorEvent e))).map (Function.update w n)
  | .linkUp a b =>
      if a ≠ b ∧ nodeKey ext b ∈ (w a).routerConns.map Prod.fst then
        some (Function.update (Function.update w a ((w a).envStep (.peerUp (nodeKey ext b)))) b
          ((w b).envStep (.peerUp (nodeKey ext a))))
      else none
  | .transfer a b =>
      if a = b then none
      else
        match pop (nodeKey ext b) (w a).routerOut with
        | some (m, q) =>
            some (Function.update (Function.update w a { w a with routerOut := q }) b
              ((w b).envStep (.arrive (nodeKey ext a) m)))
        | none => none
  | .multicast a b gid m =>
      if (gid, m) ∈ (w a).pubOut ∧ gid ∈ (w b).subGroups then
        some (Function.update w b ((w b).envStep (.subArrive gid m)))
      else none

/-- What a step of the network does, with the condition under which it is taken. -/
inductive NetTrans (ext : N → Cliid) (home : τ → N) (hwm : Nat) (w : N → CommHandler τ) :
    NetLabel N τ → (N → CommHandler τ) → Prop
  | comm {n l s} (hs : (w n).commStep hwm l = some s) :
      NetTrans ext home hwm w (.comm n l) (Function.update w n s)
  | app {t l s} (hs : (w (home t)).appStep t l = some s) :
      NetTrans ext home hwm w (.app t l) (Function.update w (home t) s)
  | ctor {n l mtx pc} (hs : (w n).ctorStep l = some { w n with mtx := mtx, ctor := pc }) :
      NetTrans ext home hwm w (.ctor n l) (Function.update w n { w n with mtx := mtx, ctor := pc })
  | monitor {n e} :
      NetTrans ext home hwm w (.monitor n e) (Function.update w n ((w n).envStep (.monitorEvent e)))
  | linkUp {a b} (hne : a ≠ b) (hnamed : nodeKey ext b ∈ (w a).routerConns.map Prod.fst) :
      NetTrans ext home hwm w (.linkUp a b)
        (Function.update (Function.update w a ((w a).envStep (.peerUp (nodeKey ext b)))) b
          ((w b).envStep (.peerUp (nodeKey ext a))))
  | transfer {a b m q} (hne : a ≠ b) (hpop : pop (nodeKey ext b) (w a).routerOut = some (m, q)) :
      NetTrans ext home hwm w (.transfer a b)
        (Function.update (Function.update w a { w a with routerOut := q }) b
          ((w b).envStep (.arrive (nodeKey ext a) m)))
  | multicast {a b gid m} (hpub : (gid, m) ∈ (w a).pubOut) (hsub : gid ∈ (w b).subGroups) :
      NetTrans ext home hwm w (.multicast a b gid m)
        (Function.update w b ((w b).envStep (.subArrive gid m)))

theorem netTrans_of_netStep {ext : N → Cliid} {home : τ → N} {hwm : Nat} {w w' : N → CommHandler τ}
    {l : NetLabel N τ} (h : netStep ext home hwm w l = some w') : NetTrans ext home hwm w l w' := by
  cases l with
  | comm n l =>
      obtain ⟨s, hs, rfl⟩ := Option.map_eq_some_iff.mp h
      exact .comm hs
  | app t l =>
      obtain ⟨s, hs, rfl⟩ := Option.map_eq_some_iff.mp h
      exact .app (CommHandler.step_app_eq_some hs).2
  | ctor n l =>
      obtain ⟨s, hs, rfl⟩ := Option.map_eq_some_iff.mp h
      have hctor : (w n).ctorStep l = some s := hs
      rcases CommHandler.ctorStep_eq_some hctor with ⟨-, -, rfl⟩ | ⟨-, rfl⟩
      · exact .ctor hctor
      · exact .ctor hctor
  | monitor n e =>
      cases h
      exact .monitor
  | linkUp a b =>
      simp only [netStep] at h
      split_ifs at h with hc
      cases h
      exact .linkUp hc.1 hc.2
  | transfer a b =>
      simp only [netStep] at h
      split_ifs at h with hne
      split at h
      · rename_i m q hpop
        cases h
        exact .transfer hne hpop
      · cases h
  | multicast a b gid m =>
      simp only [netStep] at h
      split_ifs at h with hc
      cases h
      exact .multicast hc.1 hc.2

/-- No message is lost in a failing send to a ROUTER or PUSH socket, and no payload is a
`sub_hello`. -/
def NoLoss : NetLabel N τ → Prop
  | .comm _ (.msgq _ sent) => sent = true
  | .comm _ (.push dst) => dst.isSome = true
  | .app _ (.send _ data) => data ≠ commHandlerSubInit
  | _ => True

/-- No payload passed to `send` is one that the comm thread's `int` cuts short. -/
def IntactSend : NetLabel N τ → Prop
  | .app _ (.send _ data) => Whole data
  | _ => True

/-- The same of `publish`. -/
def IntactPublish : NetLabel N τ → Prop
  | .app _ (.publish _ data) => Whole data
  | _ => True

/-! ## The property -/

/-- The payloads of thread `t` on the `taskq` of a node, in the order of the pushes. -/
def pushedFrom (t : τ) (s : CommHandler τ) : List Bytes := sendsOf t (s.taskLog.map Prod.snd)

/-- The payloads that thread `t` passed to `send` for the node with external id `x`, in order. -/
def passedTo (t : τ) (x : Cliid) (s : CommHandler τ) : List Bytes :=
  payloadsFor (ide2i x) (pipe t s.sendLog)

/-- **Unicast delivery.** At every node `b`: what was pushed on `taskq` of the messages of a thread
is a first part of what it sent to `b`, in order; every such item carries the id of the sender's
node, which `recv` gives back; every item is given out at most once, as it is. -/
structure UnicastDelivery (ext : N → Cliid) (home : τ → N) (w : N → CommHandler τ) : Prop where
  delivered : ∀ t b, pushedFrom t (w b) <+: passedTo t (ext b) (w (home t))
  attributed : ∀ b c m t, (c, m) ∈ (w b).taskLog → m.origin = .send t →
    c = ide2i (ext (home t)) ∧ CommHandler.recvCid c = ext (home t)
  once : ∀ b, ((w b).received.map Prod.fst).Nodup
  returned : ∀ b k u x data, (k, u, x, data) ∈ (w b).received →
    ∃ c m, (w b).taskLog[k]? = some (c, m) ∧ data = m.data ∧
      ∀ t, m.origin = .send t → x = ext (home t)

/-! ## The nodes refine the ports -/

namespace CommHandler

/-- The peer whose hello is being sent. -/
def greeting (s : CommHandler τ) : Option Cliid :=
  match s.pc with
  | .hello _ dest _ => some dest
  | _ => none

/-- The port of a node. -/
def port (s : CommHandler τ) : Port τ where
  sends := s.sendLog
  queue := s.msgq
  out := s.routerOut
  inbox := s.routerIn
  known := fun c => (s.clientmap c).getD false
  named := s.routerConns.map Prod.fst
  peers := s.peers
  greeting := s.greeting
  tasks := s.taskLog ++ s.heldTask

/-- Published messages are not those of a `send`. -/
structure PubClean (s : CommHandler τ) : Prop where
  queued : ∀ e, e ∈ s.pubSendpull → ∀ t, e.2.2.origin ≠ .send t
  published : ∀ e, e ∈ s.pubOut → ∀ t, e.2.origin ≠ .send t
  arrived : ∀ e, e ∈ s.subSock → ∀ t, e.2.origin ≠ .send t

theorem known_update (m : Cliid → Option Bool) (c : Cliid) :
    (fun c' => (Function.update m c (some true) c').getD false) =
      Function.update (fun c' => (m c').getD false) c true := by
  funext c'
  by_cases h : c' = c
  · subst h
    simp
  · simp [h]

theorem portStep_congr {home : τ → N} {n : N} {s s' : CommHandler τ} {q : Port τ}
    (h : PortStep home n s.port q) (heq : s'.port = q) : PortStep home n s.port s'.port := by
  rw [heq]
  exact h

/-- What has arrived at the ROUTER socket is short, and is not cut again. -/
theorem portStep_of_commStep {home : τ → N} {n : N} {hwm : Nat} {s s' : CommHandler τ}
    {l : CommLabel τ} (hclean : s.PubClean) (hshort : ∀ e ∈ s.routerIn, e.2.data.length < 2 ^ 31)
    (hok : NoLoss (NetLabel.comm n l)) (h : s.commStep hwm l = some s') :
    PortStep home n s.port s'.port := by
  have huncut : ∀ {c m q}, pop c s.routerIn = some (m, q) → m.forwarded = m := fun hpop =>
    Msg.forwarded_of_lt (hshort _ (mem_of_pop hpop))
  cases commTrans_of_commStep h with
  | msgqLost => cases hok
  | pushTaskLost | pushSuberLost => cases hok
  | helloRetry => exact .skip
  | msgqSent hpc hpop hpeer hlen =>
      have hg : s.port.greeting = none := by simp [port, greeting, hpc]
      exact portStep_congr (.forward hpop hpeer hg hlen) (by simp [port, greeting, heldTask, hpc])
  | routerSuber hpc hpop hd =>
      rw [← Msg.forwarded_data, huncut hpop] at hd
      exact portStep_congr (.suber hpop hd) (by simp [port, greeting, heldTask, hpc])
  | routerClient hpc hpop hd hmap hlen =>
      rw [← Msg.forwarded_data, huncut hpop] at hd
      rename_i rest c m q
      have hk : s.port.known c = false := by
        show (s.clientmap c).getD false = false
        cases hc : s.clientmap c with
        | none => rfl
        | some b =>
            cases b with
            | false => rfl
            | true => exact absurd hc hmap
      exact portStep_congr (.client hpop hd hk) (by simp [port, greeting, heldTask, hpc, known_update])
  | routerTask hpc hpop hd hmap hlen =>
      rename_i rest c m q
      have hk : s.port.known c = true := by simp [port, hmap]
      rw [huncut hpop]
      rw [← Msg.forwarded_data, huncut hpop] at hd
      exact portStep_congr (.task hpop hd hk) (by simp [port, greeting, heldTask, hpc])
  | conn hpc hpop =>
      rename_i rest t behind dest text q
      have hg : s.port.greeting = none := by simp [port, greeting, hpc]
      exact portStep_congr (.connect dest hg) (by simp [port, greeting, heldTask, hpc, known_update])
  | hello hpc hpeer =>
      rename_i t dest rest
      have hg : s.port.greeting = some dest := by simp [port, greeting, hpc]
      exact portStep_congr (.hello hg) (by simp [port, greeting, heldTask, hpc, unlock])
  | subSockNew hpc hq hpub hpid hmap hpeer =>
      rename_i rest behind junk gid m q pid sent
      cases sent with
      | true =>
          exact portStep_congr (.reply pid) (by simp [port, greeting, heldTask, hpc, unlock, subReply])
      | false =>
          exact portStep_congr .skip (by simp [port, greeting, heldTask, hpc, unlock, subReply])
  | subSockTask hpc hq hpub =>
      rename_i rest behind junk sent gid m q
      have hm : ∀ t, m.forwarded.origin ≠ .send t := hclean.arrived _ (hq ▸ List.mem_cons_self)
      exact portStep_congr (.multicast (ide2i gid) hm) (by simp [port, greeting, heldTask, hpc])
  | pushTask hpc | pushSuber hpc =>
      exact portStep_congr .skip (by simp [port, greeting, heldTask, hpc, unlock])
  | startupNext hpc | startupDone hpc | startupFail hpc | startupSilent hpc | poll hpc | pollFail hpc
  | recvFail hpc | recvFailConn hpc | monitorOk hpc | monitorFail hpc | monitorAbort hpc | connFail hpc
  | pubSend hpc | pubSendFail hpc | sub hpc | subConnFail hpc | subSetFail hpc | subSpin hpc
  | subSockOld hpc | pubStart hpc | pubStartFail hpc | shutdown hpc =>
      exact portStep_congr .skip (by simp [port, greeting, heldTask, hpc, unlock, failed])

theorem portStep_of_appStep {home : τ → N} {n : N} {s s' : CommHandler τ} {t : τ} {l : AppLabel}
    (hhome : home t = n) (h : s.appStep t l = some s') : PortStep home n s.port s'.port := by
  obtain ⟨pullers, hattach⟩ := attachTask_eq s t
  cases appTrans_of_appStep h with
  | send hpc herr => exact portStep_congr (.send hhome) rfl
  | sendReq hpc =>
      rename_i r
      cases r <;> exact portStep_congr .skip rfl
  | unlock hpc =>
      rename_i r
      cases r <;> exact portStep_congr .skip rfl
  | recv | recvAsync | recvAsyncEmpty | recvAsyncNone =>
      rw [hattach]
      exact portStep_congr .skip rfl
  | _ => exact portStep_congr .skip rfl

/-! ## Published messages -/

theorem pubClean_init (id : Cliid) (acceptConns : Bool) : (init τ id acceptConns).PubClean where
  queued e he := by cases he
  published e he := by cases he
  arrived e he := by cases he

theorem pubClean_commStep {hwm : Nat} {s s' : CommHandler τ} {l : CommLabel τ} (hs : s.PubClean)
    (h : s.commStep hwm l = some s') : s'.PubClean := by
  cases commTrans_of_commStep h with
  | pubSend hpc hpop =>
      refine ⟨fun e he => hs.queued e (mem_of_mem_pop hpop he), ?_, hs.arrived⟩
      apply forall_mem_concat hs.published
      exact hs.queued _ (mem_of_pop hpop)
  | pubSendFail hpc hpop =>
      exact ⟨fun e he => hs.queued e (mem_of_mem_pop hpop he), hs.published, hs.arrived⟩
  | subSockNew hpc hq | subSockOld hpc hq | subSockTask hpc hq =>
      refine ⟨hs.queued, hs.published, fun e he => hs.arrived e ?_⟩
      rw [hq]
      exact List.mem_cons_of_mem _ he
  | _ => exact ⟨hs.queued, hs.published, hs.arrived⟩

theorem pubClean_appStep {s s' : CommHandler τ} {t : τ} {l : AppLabel} (hs : s.PubClean)
    (h : s.appStep t l = some s') : s'.PubClean := by
  obtain ⟨pullers, hattach⟩ := attachTask_eq s t
  cases appTrans_of_appStep h with
  | announce hpc | publish hpc =>
      refine ⟨?_, hs.published, hs.arrived⟩
      apply forall_mem_concat hs.queued
      simp
  | sendReq hpc =>
      rename_i r
      cases r <;> exact ⟨hs.queued, hs.published, hs.arrived⟩
  | unlock hpc =>
      rename_i r
      cases r <;> exact ⟨hs.queued, hs.published, hs.arrived⟩
  | recv | recvAsync | recvAsyncEmpty | recvAsyncNone =>
      rw [hattach]
      exact ⟨hs.queued, hs.published, hs.arrived⟩
  | _ => exact ⟨hs.queued, hs.published, hs.arrived⟩

/-! ## Payloads passed to `send` -/

theorem sendLog_commStep {hwm : Nat} {s s' : CommHandler τ} {l : CommLabel τ}
    (h : s.commStep hwm l = some s') : s'.sendLog = s.sendLog := by
  cases commTrans_of_commStep h <;> rfl

/-- Only an accepted `send` adds to the payloads passed. -/
theorem sendLog_appStep {s s' : CommHandler τ} {t : τ} {l : AppLabel} (h : s.appStep t l = some s') :
    s'.sendLog = s.sendLog ∨ ∃ cid data, l = .send cid data ∧
      s'.sendLog = s.sendLog ++ [(t, ide2i cid, Msg.mk data (.send t))] := by
  obtain ⟨pullers, hattach⟩ := attachTask_eq s t
  cases appTrans_of_appStep h with
  | send hpc herr => exact .inr ⟨_, _, rfl, rfl⟩
  | sendReq hpc =>
      rename_i r
      cases r <;> exact .inl rfl
  | unlock hpc =>
      rename_i r
      cases r <;> exact .inl rfl
  | recv | recvAsync | recvAsyncEmpty | recvAsyncNone =>
      rw [hattach]
      exact .inl rfl
  | _ => exact .inl rfl

/-! ## Items given out -/

/-- Every item of `taskq` is in one pipe or has been given out once, under its position. -/
structure Receipts (s : CommHandler τ) : Prop where
  positions : (s.taskPipes.map (fun e => e.2.1) ++ s.received.map Prod.fst).Nodup
  piped : ∀ e, e ∈ s.taskPipes → s.taskLog[e.2.1]? = some e.2.2
  given : ∀ e, e ∈ s.received → ∃ c m, s.taskLog[e.1]? = some (c, m) ∧ e.2.2.2 = m.data ∧
    (e.2.2.1 = recvCid c ∨ e.2.2.1 = idi2e c)

theorem receipts_init (id : Cliid) (acceptConns : Bool) : (init τ id acceptConns).Receipts where
  positions := List.nodup_nil
  piped e he := by cases he
  given e he := by cases he

theorem receipts_push {s s' : CommHandler τ} {t : τ} {e : Cliid × Msg τ} (hs : s.Receipts)
    (h1 : s'.taskPipes = s.taskPipes ++ [(t, s.taskLog.length, e)])
    (h2 : s'.taskLog = s.taskLog ++ [e]) (h3 : s'.received = s.received) : s'.Receipts := by
  have hstay : ∀ (k : Nat) (x : Cliid × Msg τ), s.taskLog[k]? = some x → s'.taskLog[k]? = some x := by
    intro k x hk
    rw [h2, List.getElem?_append_left (List.getElem?_eq_some_iff.mp hk).1, hk]
  refine ⟨?_, ?_, ?_⟩
  · have hfresh : s.taskLog.length ∉
        s.taskPipes.map (fun e => e.2.1) ++ s.received.map Prod.fst := by
      intro hmem
      rcases List.mem_append.mp hmem with hmem | hmem
      · obtain ⟨x, hx, hk⟩ := List.mem_map.mp hmem
        have hlt := (List.getElem?_eq_some_iff.mp (hs.piped x hx)).1
        omega
      · obtain ⟨x, hx, hk⟩ := List.mem_map.mp hmem
        obtain ⟨c, m, hget, -⟩ := hs.given x hx
        have hlt := (List.getElem?_eq_some_iff.mp hget).1
        omega
    rw [h1, h3, List.map_append, List.append_assoc, List.map_singleton]
    exact List.nodup_middle.mpr (List.nodup_cons.mpr ⟨hfresh, hs.positions⟩)
  · intro x hx
    rw [h1] at hx
    rcases List.mem_append.mp hx with hx | hx
    · exact hstay _ _ (hs.piped x hx)
    · rw [List.mem_singleton] at hx
      subst hx
      rw [h2]
      simp
  · intro x hx
    rw [h3] at hx
    obtain ⟨c, m, hget, hrest⟩ := hs.given x hx
    exact ⟨c, m, hstay _ _ hget, hrest⟩

/-- A receive call gives out the oldest item of the caller's pipe. -/
theorem receipts_recv {s s' : CommHandler τ} {t : τ} {k : Nat} {cid x : Cliid} {m : Msg τ}
    {q : List (τ × Nat × Cliid × Msg τ)} (hs : s.Receipts)
    (hpop : pop t s.taskPipes = some ((k, cid, m), q)) (hx : x = recvCid cid ∨ x = idi2e cid)
    (h1 : s'.taskPipes = q) (h2 : s'.taskLog = s.taskLog)
    (h3 : s'.received = s.received ++ [(k, t, x, m.data)]) : s'.Receipts := by
  have hhead := hs.piped _ (mem_of_pop hpop)
  refine ⟨?_, ?_, ?_⟩
  · obtain ⟨l, r, hl, rfl, -⟩ := pop_split hpop
    have hold := hs.positions
    rw [hl] at hold
    rw [h1, h3]
    refine (List.Perm.nodup_iff ?_).mp hold
    simp only [List.map_append, List.map_cons, List.map_nil, List.append_assoc, List.cons_append]
    refine List.Perm.append_left _ ?_
    rw [← List.append_assoc]
    exact (List.perm_append_singleton k _).symm
  · intro e he
    rw [h1] at he
    rw [h2]
    exact hs.piped e (mem_of_mem_pop hpop he)
  · intro e he
    rw [h3] at he
    rw [h2]
    rcases List.mem_append.mp he with he | he
    · exact hs.given e he
    · rw [List.mem_singleton] at he
      subst he
      exact ⟨cid, m, hhead, rfl, hx⟩

/-- `recv_async` takes an empty item away without giving it out. -/
theorem receipts_drop {s s' : CommHandler τ} {t : τ} {x : Nat × Cliid × Msg τ}
    {q : List (τ × Nat × Cliid × Msg τ)} (hs : s.Receipts) (hpop : pop t s.taskPipes = some (x, q))
    (h1 : s'.taskPipes = q) (h2 : s'.taskLog = s.taskLog) (h3 : s'.received = s.received) :
    s'.Receipts := by
  refine ⟨?_, ?_, ?_⟩
  · obtain ⟨l, r, hl, rfl, -⟩ := pop_split hpop
    have hold := hs.positions
    rw [hl] at hold
    rw [h1, h3]
    refine List.Nodup.sublist ?_ hold
    simp
  · intro e he
    rw [h1] at he
    rw [h2]
    exact hs.piped e (mem_of_mem_pop hpop he)
  · rw [h3, h2]
    exact hs.given

theorem receipts_congr {s s' : CommHandler τ} (hs : s.Receipts) (h1 : s'.taskPipes = s.taskPipes)
    (h2 : s'.taskLog = s.taskLog) (h3 : s'.received = s.received) : s'.Receipts := by
  refine ⟨?_, ?_, ?_⟩
  · rw [h1, h3]
    exact hs.positions
  · rw [h1, h2]
    exact hs.piped
  · rw [h3, h2]
    exact hs.given

theorem receipts_commStep {hwm : Nat} {s s' : CommHandler τ} {l : CommLabel τ} (hs : s.Receipts)
    (h : s.commStep hwm l = some s') : s'.Receipts := by
  cases commTrans_of_commStep h with
  | pushTask hpc ht hroom => exact receipts_push hs rfl rfl rfl
  | _ => exact receipts_congr hs rfl rfl rfl

theorem receipts_appStep {s s' : CommHandler τ} {t : τ} {l : AppLabel} (hs : s.Receipts)
    (h : s.appStep t l = some s') : s'.Receipts := by
  obtain ⟨pullers, hattach⟩ := attachTask_eq s t
  cases appTrans_of_appStep h with
  | sendReq hpc =>
      rename_i r
      cases r <;> exact receipts_congr hs rfl rfl rfl
  | unlock hpc =>
      rename_i r
      cases r <;> exact receipts_congr hs rfl rfl rfl
  | recv | recvAsyncNone =>
      rw [hattach]
      exact receipts_congr hs rfl rfl rfl
  | recvDone hpc hpop => exact receipts_recv hs hpop (.inl rfl) rfl rfl rfl
  | recvAsync hpc herr hpop =>
      rw [hattach]
      exact receipts_recv hs hpop (.inr rfl) rfl rfl rfl
  | recvAsyncEmpty hpc herr hpop =>
      rw [hattach]
      exact receipts_drop hs hpop rfl rfl rfl
  | _ => exact receipts_congr hs rfl rfl rfl

end CommHandler

/-! ## The nodes and their connections -/

section

variable {ext : N → Cliid} {home : τ → N} {hwm : Nat} {w w' : N → CommHandler τ}

/-- What holds of every node and of the wires between them. -/
structure NetInv (ext : N → Cliid) (home : τ → N) (w : N → CommHandler τ) : Prop where
  wired : Wired (nodeKey ext) home fun n => (w n).port
  pubClean : ∀ n, (w n).PubClean
  receipts : ∀ n, (w n).Receipts

theorem nodeKey_injective (hinj : Function.Injective ext) (hext : ∀ n, ExtId (ext n)) :
    Function.Injective (nodeKey ext) :=
  fun a b h => hinj (ide2i_injOn (hext a) (hext b) h)

theorem netInv_init (acceptConns : N → Bool) : NetInv ext home (netInit τ ext acceptConns) := by
  refine ⟨?_, fun n => CommHandler.pubClean_init _ _, fun n => CommHandler.receipts_init _ _⟩
  refine ⟨?_, ?_, ?_, ?_, ?_, ?_, ?_, ?_⟩
  · intro n e he
    cases he
  · intro n e he
    cases he
  · intro n e he
    cases he
  · intro n e he
    cases he
  · intro n c hc
    cases hc
  · intro a b hpeer
    cases hpeer
  · intro a b
    refine ⟨?_, ?_⟩
    · intro hnamed
      cases hnamed
    · intro _ m r hm
      cases hm
  · intro t b _
    rfl

/-- The ports after one node is written. -/
theorem port_update (n : N) (s : CommHandler τ) :
    (fun x => (Function.update w n s x).port) = Function.update (fun x => (w x).port) n s.port :=
  funext fun x => Function.apply_update (fun _ => CommHandler.port) w n s x

/-- What holds of every node under its name holds after one node is written. -/
theorem forall_update {P : N → CommHandler τ → Prop} (h : ∀ n, P n (w n)) (a : N)
    {s : CommHandler τ} (hs : P a s) (x : N) : P x (Function.update w a s x) := by
  by_cases hx : x = a
  · subst hx
    rw [Function.update_self]
    exact hs
  · rw [Function.update_of_ne hx]
    exact h x

/-- What holds of every node holds after two nodes are written. -/
theorem forall_update₂ {P : CommHandler τ → Prop} (h : ∀ n, P (w n)) (a b : N)
    {s u : CommHandler τ} (hs : P s) (hu : P u) (x : N) :
    P (Function.update (Function.update w a s) b u x) :=
  forall_update (P := fun _ => P) (forall_update (P := fun _ => P) h a hs) b hu x

/-- The invariant after a step of one node. -/
theorem NetInv.node (hinj : Function.Injective (nodeKey ext)) (hw : NetInv ext home w) {n : N}
    {s : CommHandler τ} (hport : PortStep home n (w n).port s.port) (hpub : s.PubClean)
    (hrec : s.Receipts) : NetInv ext home (Function.update w n s) := by
  refine ⟨?_, forall_update hw.pubClean n hpub, forall_update hw.receipts n hrec⟩
  rw [port_update]
  exact hw.wired.step hinj (.node hport)

/-- The invariant after a step of the connection between two nodes. -/
theorem NetInv.wire (hinj : Function.Injective (nodeKey ext)) (hw : NetInv ext home w) {a b : N}
    {s u : CommHandler τ}
    (hstep : WireStep (nodeKey ext) home (fun n => (w n).port)
      (Function.update (Function.update (fun n => (w n).port) a s.port) b u.port))
    (hs : s.PubClean ∧ s.Receipts) (hu : u.PubClean ∧ u.Receipts) :
    NetInv ext home (Function.update (Function.update w a s) b u) := by
  refine ⟨?_, forall_update₂ hw.pubClean a b hs.1 hu.1, forall_update₂ hw.receipts a b hs.2 hu.2⟩
  rw [port_update, port_update]
  exact hw.wired.step hinj hstep

/-- What has arrived at a node's ROUTER socket is short. -/
theorem NetInv.short (hw : NetInv ext home w) (n : N) :
    ∀ e ∈ (w n).routerIn, e.2.data.length < 2 ^ 31 := fun e he => (hw.wired.inbox n e he).short

/-- A subscriber gets published messages only. -/
theorem pubClean_subArrive {s : CommHandler τ} (hs : s.PubClean) (gid : Cliid) {m : Msg τ}
    (hm : ∀ t, m.origin ≠ .send t) : (s.envStep (.subArrive gid m)).PubClean := by
  refine ⟨hs.queued, hs.published, ?_⟩
  apply forall_mem_concat hs.arrived
  exact hm

/-- **Every step of the network that loses nothing keeps the invariant.** -/
theorem netInv_step (hinj : Function.Injective (nodeKey ext)) (hw : NetInv ext home w)
    {l : NetLabel N τ} (hok : NoLoss l) (h : netStep ext home hwm w l = some w') :
    NetInv ext home w' := by
  have hclean : ∀ n, ∀ s : CommHandler τ, s.pubSendpull = (w n).pubSendpull →
      s.pubOut = (w n).pubOut → s.subSock = (w n).subSock → s.PubClean := by
    intro n s h1 h2 h3
    refine ⟨?_, ?_, ?_⟩
    · rw [h1]
      exact (hw.pubClean n).queued
    · rw [h2]
      exact (hw.pubClean n).published
    · rw [h3]
      exact (hw.pubClean n).arrived
  cases netTrans_of_netStep h with
  | comm hs =>
      exact hw.node hinj (CommHandler.portStep_of_commStep (hw.pubClean _) (hw.short _) hok hs)
        (CommHandler.pubClean_commStep (hw.pubClean _) hs)
        (CommHandler.receipts_commStep (hw.receipts _) hs)
  | app hs =>
      exact hw.node hinj (CommHandler.portStep_of_appStep rfl hs)
        (CommHandler.pubClean_appStep (hw.pubClean _) hs)
        (CommHandler.receipts_appStep (hw.receipts _) hs)
  | ctor hs =>
      rename_i n l mtx pc
      exact hw.node hinj (CommHandler.portStep_congr .skip rfl) (hclean n _ rfl rfl rfl)
        (CommHandler.receipts_congr (hw.receipts n) rfl rfl rfl)
  | monitor =>
      rename_i n e
      exact hw.node hinj (CommHandler.portStep_congr .skip rfl) (hclean n _ rfl rfl rfl)
        (CommHandler.receipts_congr (hw.receipts n) rfl rfl rfl)
  | linkUp hne hnamed =>
      rename_i a b
      refine hw.wire hinj (.linkUp hne hnamed) ⟨hclean a _ rfl rfl rfl, ?_⟩
        ⟨hclean b _ rfl rfl rfl, ?_⟩
      · exact CommHandler.receipts_congr (hw.receipts a) rfl rfl rfl
      · exact CommHandler.receipts_congr (hw.receipts b) rfl rfl rfl
  | transfer hne hpop =>
      rename_i a b m q
      refine hw.wire hinj (.transfer hne hpop) ⟨hclean a _ rfl rfl rfl, ?_⟩
        ⟨hclean b _ rfl rfl rfl, ?_⟩
      · exact CommHandler.receipts_congr (hw.receipts a) rfl rfl rfl
      · exact CommHandler.receipts_congr (hw.receipts b) rfl rfl rfl
  | multicast hpub hsub =>
      rename_i a b gid m
      refine hw.node hinj (CommHandler.portStep_congr .skip rfl) ?_ ?_
      · exact pubClean_subArrive (hw.pubClean b) gid ((hw.pubClean a).published _ hpub)
      · exact CommHandler.receipts_congr (hw.receipts b) rfl rfl rfl

/-- The invariant holds along every run that loses nothing. -/
theorem netInv_exec (hinj : Function.Injective (nodeKey ext)) {acceptConns : N → Bool}
    {ls : List (NetLabel N τ)} (hok : ∀ l ∈ ls, NoLoss l)
    (hrun : exec (netStep ext home hwm) (netInit τ ext acceptConns) ls = some w) :
    NetInv ext home w := by
  have hmeets : Meets (netStep ext home hwm) (fun _ l => NoLoss l) (netInit τ ext acceptConns) ls :=
    meets_of_forall_mem fun l hl _ => hok l hl
  refine exec_invariant_of_meets ?_ (netInv_init acceptConns) hmeets hrun
  intro s l s' hs hl hstep
  exact netInv_step hinj hs hl hstep

/-- Every payload that a node's threads have passed to `send` is plain. -/
def PlainSends (w : N → CommHandler τ) : Prop := ∀ n, ∀ e ∈ (w n).sendLog, Plain e.2.2.data

theorem plainSends_step (hw : PlainSends w) {l : NetLabel N τ} (hok : NoLoss l) (hwhole : IntactSend l)
    (h : netStep ext home hwm w l = some w') : PlainSends w' := by
  cases netTrans_of_netStep h with
  | comm hs =>
      apply forall_update (P := fun _ s => ∀ e ∈ s.sendLog, Plain e.2.2.data) hw
      rw [CommHandler.sendLog_commStep hs]
      exact hw _
  | app hs =>
      apply forall_update (P := fun _ s => ∀ e ∈ s.sendLog, Plain e.2.2.data) hw
      rcases CommHandler.sendLog_appStep hs with hsame | ⟨cid, data, rfl, hadd⟩
      · rw [hsame]
        exact hw _
      · rw [hadd]
        apply forall_mem_concat (hw _)
        exact ⟨hok, hwhole⟩
  | ctor | monitor | multicast =>
      apply forall_update (P := fun _ s => ∀ e ∈ s.sendLog, Plain e.2.2.data) hw
      exact hw _
  | linkUp | transfer =>
      exact forall_update₂ (P := fun s => ∀ e ∈ s.sendLog, Plain e.2.2.data) hw _ _ (hw _) (hw _)

theorem plainSends_exec {acceptConns : N → Bool} {ls : List (NetLabel N τ)}
    (hok : ∀ l ∈ ls, NoLoss l) (hwhole : ∀ l ∈ ls, IntactSend l)
    (hrun : exec (netStep ext home hwm) (netInit τ ext acceptConns) ls = some w) : PlainSends w := by
  have hmeets : Meets (netStep ext home hwm) (fun _ l => NoLoss l ∧ IntactSend l)
      (netInit τ ext acceptConns) ls :=
    meets_of_forall_mem fun l hl _ => ⟨hok l hl, hwhole l hl⟩
  refine exec_invariant_of_meets ?_ (fun _ e he => by cases he) hmeets hrun
  intro s l s' hs hl hstep
  exact plainSends_step hs hl.1 hl.2 hstep

/-! ## End to end -/

theorem recvCid_ide2i {x : Cliid} (hx : ExtId x) : CommHandler.recvCid (ide2i x) = x := by
  rw [CommHandler.recvCid, if_pos (ide2i_nonneg hx), idi2e_ide2i hx]

/-- A thread's message on `taskq` is tagged with the id of its node. -/
theorem NetInv.tagged (hw : NetInv ext home w) {b : N} {c : Cliid} {m : Msg τ} {t : τ}
    (hmem : (c, m) ∈ (w b).taskLog) (ht : m.origin = .send t) : c = ide2i (ext (home t)) :=
  (hw.wired.tasks b (c, m) (List.mem_append_left _ hmem) t ht).symm

/-- The payloads of a thread for one destination are among those it has passed. -/
theorem PlainSends.payloads (hw : PlainSends w) (home : τ → N) (t : τ) (c : Cliid) :
    ∀ d ∈ payloadsFor c (pipe t (w (home t)).sendLog), Plain d := by
  intro d hd
  obtain ⟨m, hm, rfl⟩ := List.mem_map.mp hd
  exact hw _ _ (mem_pipe.mp (mem_pipe.mp hm))

/-- **Unicast messages arrive in order, once, and under the sender's id.** In any network of nodes
with distinct ids in `[0, 2^27)`, in every state of every run in which no message is lost in a
failing send and no payload passed to `send` is a `sub_hello` or is cut short by the `int` in which
the comm threads keep its length. -/
theorem unicast_delivery (ext : N → Cliid) (hinj : Function.Injective ext)
    (hext : ∀ n, ExtId (ext n)) (home : τ → N) (hwm : Nat) (acceptConns : N → Bool)
    (ls : List (NetLabel N τ)) (hok : ∀ l ∈ ls, NoLoss l) (hwhole : ∀ l ∈ ls, IntactSend l)
    (w : N → CommHandler τ)
    (hrun : exec (netStep ext home hwm) (netInit τ ext acceptConns) ls = some w) :
    UnicastDelivery ext home w := by
  have hw := netInv_exec (nodeKey_injective hinj hext) hok hrun
  refine ⟨?_, ?_, ?_, ?_⟩
  · intro t b
    have hall := hw.wired.delivered t b ((plainSends_exec hok hwhole hrun).payloads home t _)
    have hpart : pushedFrom t (w b) <+: sendsOf t ((w b).port.tasks.map Prod.snd) := by
      show _ <+: sendsOf t (((w b).taskLog ++ (w b).heldTask).map Prod.snd)
      rw [List.map_append, sendsOf_append]
      exact List.prefix_append _ _
    exact hpart.trans hall
  · intro b c m t hmem ht
    have hc := hw.tagged hmem ht
    refine ⟨hc, ?_⟩
    rw [hc]
    exact recvCid_ide2i (hext _)
  · intro b
    exact (hw.receipts b).positions.of_append_right
  · intro b k u x data hmem
    obtain ⟨c, m, hget, hdata, hx⟩ := (hw.receipts b).given _ hmem
    refine ⟨c, m, hget, hdata, ?_⟩
    intro t ht
    have hc := hw.tagged (List.mem_of_getElem? hget) ht
    rcases hx with hx | hx
    · rw [show x = _ from hx, hc, recvCid_ide2i (hext _)]
    · rw [show x = _ from hx, hc, idi2e_ide2i (hext _)]

end

/-- Two nodes: node 2 (`false`) connects to node 3 (`true`) and sends two messages; the second is
still at node 2 when node 3 has received the first. -/
def twoNodes : List (NetLabel Bool Bool) :=
  [.comm false (.startup true), .comm false (.startup true), .comm false (.startup true),
    .ctor false .relock, .ctor false .unlock,
    .comm true (.startup true), .comm true (.startup true), .comm true (.startup true),
    .comm true (.startup true), .ctor true .relock, .ctor true .unlock,
    .app false (.connectTo [104] [49] 3), .app false .lock, .app false (.sendReq true),
    .comm false (.poll true), .comm false (.conn false [0] true), .linkUp false true,
    .comm false (.hello true), .app false .relock, .app false .unlock, .app false .test,
    .app false (.send 3 [104]), .app false .test, .app false (.send 3 [105]), .app false .test,
    .comm false (.poll true), .comm false (.msgq false true),
    .transfer false true, .comm true (.poll true), .comm true (.router (ide2i 2)),
    .transfer false true, .comm true (.poll true), .comm true (.router (ide2i 2)),
    .app true .recv, .comm true (.push (some true)), .app true .recvDone]

/-- The run of two nodes: the hello is not taken for a message, and the one message that has been
received is attributed to node 2. -/
theorem unicast_delivery_twoNodes :
    ∃ w : Bool → CommHandler Bool,
      exec (netStep (fun b => if b then 3 else 2) id 10)
        (netInit Bool (fun b => if b then 3 else 2) id) twoNodes = some w ∧
      UnicastDelivery (fun b => if b then 3 else 2) id w ∧
      pushedFrom false (w true) = [[104]] ∧ passedTo false 3 (w false) = [[104], [105]] ∧
      (w true).received = [(0, true, 2, [104])] := by
  obtain ⟨w, hrun, hw⟩ := exists_exec (netStep (fun b => if b then 3 else 2) id 10)
    (netInit Bool (fun b => if b then 3 else 2) id) twoNodes
    (fun w => pushedFrom false (w true) = [[104]] ∧ passedTo false 3 (w false) = [[104], [105]] ∧
      (w true).received = [(0, true, 2, [104])]) (by decide)
  refine ⟨w, hrun, ?_, of_decide_eq_true hw⟩
  have hinj : Function.Injective fun b : Bool => if b then (3 : Cliid) else 2 := by
    intro a b hab
    revert a b
    decide
  have hok : ∀ l ∈ twoNodes, NoLoss l := by
    simp [twoNodes, NoLoss]
    decide
  have hwhole : ∀ l ∈ twoNodes, IntactSend l := by
    simp [twoNodes, IntactSend]
    decide
  exact unicast_delivery _ hinj (by decide) id 10 id twoNodes hok hwhole w hrun

/-! ## A payload that is cut

The run of two nodes with any payload, up to the block that sends it on and from there to the
receive call. -/

/-- Node 2 connects to node 3 and passes `data` to `send`; its comm thread has polled. -/
def sendBefore (data : Bytes) : List (NetLabel Bool Bool) :=
  [.comm false (.startup true), .comm false (.startup true), .comm false (.startup true),
    .ctor false .relock, .ctor false .unlock,
    .comm true (.startup true), .comm true (.startup true), .comm true (.startup true),
    .comm true (.startup true), .ctor true .relock, .ctor true .unlock,
    .app false (.connectTo [104] [49] 3), .app false .lock, .app false (.sendReq true),
    .comm false (.poll true), .comm false (.conn false [0] true), .linkUp false true,
    .comm false (.hello true), .app false .relock, .app false .unlock, .app false .test,
    .transfer false true, .comm true (.poll true), .comm true (.router (ide2i 2)), .app true .recv,
    .app false (.send 3 data), .app false .test, .comm false (.poll true)]

/-- The message goes out and over, and node 3 receives it. -/
def sendAfter : List (NetLabel Bool Bool) :=
  [.comm false (.msgq false true), .transfer false true, .comm true (.poll true),
    .comm true (.router (ide2i 2)), .comm true (.push (some true)), .app true .recvDone]

/-- The state in between. -/
def sendState (data : Bytes) : Bool → CommHandler Bool :=
  (exec (netStep (fun b => if b then 3 else 2) id 10)
    (netInit Bool (fun b => if b then 3 else 2) id) (sendBefore data)).getD
      (netInit Bool (fun b => if b then 3 else 2) id)

/-- What the block of `msgq` makes of `data` when five bytes of it are sent on. -/
theorem msgqBlock_sendState {data : Bytes} (hlen : ¬ recvLen data < 0)
    (hcut : forwarded data = [7, 7, 7, 7, 7]) :
    (sendState data false).msgqBlock false true [] = some { sendState data false with
      msgq := [], routerOut := [(ide2i 3, ⟨[7, 7, 7, 7, 7], .send false⟩)],
      routerLog := [(false, ide2i 3, ⟨data, .send false⟩)], pc := .blocks [] } := by
  have hpop : pop false (sendState data false).msgq =
      some ((ide2i 3, ⟨data, .send false⟩), []) := rfl
  have hpeers : (sendState data false).peers = [ide2i 3] := rfl
  simp only [CommHandler.msgqBlock, hpop, hpeers, Msg.forwarded, hcut, if_neg hlen, if_true,
    List.mem_singleton]
  rfl

/-- Five bytes of `data` are received. -/
theorem exec_send_of_cut {data : Bytes} (hlen : ¬ recvLen data < 0)
    (hcut : forwarded data = [7, 7, 7, 7, 7]) :
    ∃ w, exec (netStep (fun b => if b then 3 else 2) id 10)
        (netInit Bool (fun b => if b then 3 else 2) id) (sendBefore data ++ sendAfter) = some w ∧
      pushedFrom false (w true) = [[7, 7, 7, 7, 7]] ∧ passedTo false 3 (w false) = [data] := by
  have hbefore : exec (netStep (fun b => if b then 3 else 2) id 10)
      (netInit Bool (fun b => if b then 3 else 2) id) (sendBefore data) =
        some (sendState data) := rfl
  have hblock : netStep (fun b => if b then 3 else 2) id 10 (sendState data)
      (.comm false (.msgq false true)) =
        ((sendState data false).msgqBlock false true []).map
          (Function.update (sendState data) false) := rfl
  rw [msgqBlock_sendState hlen hcut, Option.map_some] at hblock
  have hall : (exec (netStep (fun b => if b then 3 else 2) id 10)
      (netInit Bool (fun b => if b then 3 else 2) id) (sendBefore data ++ sendAfter)).map
        (fun w => (pushedFrom false (w true), passedTo false 3 (w false))) =
      some ([[7, 7, 7, 7, 7]], [data]) := by
    rw [exec_append, hbefore, Option.bind_some, sendAfter, exec_cons, hblock]
    rfl
  obtain ⟨w, hrun, hw⟩ := Option.map_eq_some_iff.mp hall
  exact ⟨w, hrun, congrArg Prod.fst hw, congrArg Prod.snd hw⟩

/-- A payload of `2^32 + 5` bytes, every call succeeding: its first five bytes are received. -/
theorem not_unicastDelivery_long :
    ∃ w, exec (netStep (fun b => if b then 3 else 2) id 10)
        (netInit Bool (fun b => if b then 3 else 2) id)
        (sendBefore (List.replicate (2 ^ 32 + 5) 7) ++ sendAfter) = some w ∧
      (∀ l ∈ sendBefore (List.replicate (2 ^ 32 + 5) 7) ++ sendAfter, NoLoss l) ∧
      pushedFrom false (w true) = [[7, 7, 7, 7, 7]] ∧
      ¬ UnicastDelivery (fun b => if b then 3 else 2) id w := by
  obtain ⟨data, hdata⟩ : ∃ data : Bytes, data = List.replicate (2 ^ 32 + 5) 7 := ⟨_, rfl⟩
  rw [← hdata]
  have hlong : data.length = 2 ^ 32 + 5 := by rw [hdata, List.length_replicate]
  have hval : recvLen data = 5 := by
    rw [recvLen, hlong]
    decide
  have hlen : ¬ recvLen data < 0 := by
    rw [hval]
    decide
  have hcut : forwarded data = [7, 7, 7, 7, 7] := by
    rw [forwarded, hval, hdata, List.take_replicate]
    rfl
  obtain ⟨w, hrun, hpushed, hpassed⟩ := exec_send_of_cut hlen hcut
  refine ⟨w, hrun, ?_, hpushed, ?_⟩
  · have hne : data ≠ commHandlerSubInit := by
      intro heq
      rw [heq] at hlong
      exact absurd hlong (by decide)
    simp [sendBefore, sendAfter, NoLoss, hne]
  · intro h
    have hprefix : pushedFrom false (w true) <+: passedTo false 3 (w false) := h.delivered false true
    rw [hpushed, hpassed, List.cons_prefix_cons] at hprefix
    rw [← hprefix.1] at hlong
    exact absurd hlong (by decide)

end CommTest.Zmq
