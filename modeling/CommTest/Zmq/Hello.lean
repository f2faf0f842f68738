import CommTest.Zmq.Greeting
import CommTest.Zmq.Provenance
import Mathlib.Data.Fintype.Basic

/-!
# Do handshake messages reach the application?

A `sub_hello` is recognised by its content and a `pub_hello` by its first bytes, so neither can be
pushed on `taskq`. The hello of a connection is recognised only by being the first message of a peer
that is not in `clientmap`, and connecting fills `clientmap` on the connecting side too: the second
connection between two nodes, in either direction, makes a hello that the receiver hands to the
application.

* `greetStep_of_commStep`: seen through its `greeter`, a node takes the steps of `GreetStep`.
* `FirstConnect` is the condition: a comm thread serves a `connect_to` only if neither of the two
  nodes has connected to the other before.
* `no_handshake_on_taskq`: in the runs that meet it nothing on any `taskq` was written by a comm
  thread, and the receive calls give out only bytes passed to `send` or `publish`, if none of these
  are cut short by the `int` in which the comm threads keep a length.
-/

set_option linter.unusedSectionVars false

namespace CommTest.Zmq

open FairQueue Lts

variable {N τ : Type} [DecidableEq N] [DecidableEq τ]

/-! ## The nodes refine the greeters -/

namespace CommHandler

/-- The greeter of a node. -/
def greeter (s : CommHandler τ) : Greeter τ where
  out := s.routerOut
  inbox := s.routerIn
  known := fun c => (s.clientmap c).getD false
  named := s.routerConns.map Prod.fst
  peers := s.peers
  greeting := s.greeting

/-- The destination that a step of the comm thread connects the ROUTER socket to. -/
def connectsTo (s : CommHandler τ) : CommLabel τ → Option Cliid
  | .conn t _ true => (pop t s.connSock).map fun e => e.1.1
  | _ => none

/-- Nothing that was pushed on `taskq`, or is being pushed, was written by a comm thread. -/
def AppTasks (s : CommHandler τ) : Prop := ∀ e ∈ s.taskLog ++ s.heldTask, e.2.origin ≠ .comm

theorem greetStep_congr {s s' : CommHandler τ} {q : Greeter τ} (h : GreetStep s.greeter q)
    (heq : s'.greeter = q) : GreetStep s.greeter s'.greeter := by
  rw [heq]
  exact h

theorem greetStep_of_commStep {hwm : Nat} {s s' : CommHandler τ} {l : CommLabel τ}
    (hqueue : ∀ e ∈ s.msgq, e.2.2.origin ≠ .comm) (hshort : ∀ e ∈ s.routerIn, e.2.data.length < 2 ^ 31)
    (h : s.commStep hwm l = some s') : GreetStep s.greeter s'.greeter := by
  have huncut : ∀ {c m q}, pop c s.routerIn = some (m, q) → forwarded m.data = m.data := fun hpop =>
    forwarded_of_lt (hshort _ (mem_of_pop hpop))
  cases commTrans_of_commStep h with
  | helloRetry => exact .skip
  | msgqSent hpc hpop hpeer hlen =>
      rename_i rest t cid m q
      have hg : s.greeter.greeting = none := by simp [greeter, greeting, hpc]
      have hm : ¬ m.forwarded.IsHello := fun hello => hqueue _ (mem_of_pop hpop) hello.1
      exact greetStep_congr (.emit hpeer hg hm) (by simp [greeter, greeting, hpc])
  | routerSuber hpc hpop hd =>
      rw [huncut hpop] at hd
      exact greetStep_congr (.suber hpop hd) (by simp [greeter, greeting, hpc])
  | routerClient hpc hpop hd hmap =>
      rw [huncut hpop] at hd
      exact greetStep_congr (.client hpop hd) (by simp [greeter, greeting, hpc, known_update])
  | routerTask hpc hpop hd hmap hlen =>
      rename_i rest c m q
      have hk : s.greeter.known c = true := by simp [greeter, hmap]
      exact greetStep_congr (.task hpop hk) (by simp [greeter, greeting, hpc])
  | conn hpc hpop =>
      rename_i rest t behind dest text q
      have hg : s.greeter.greeting = none := by simp [greeter, greeting, hpc]
      exact greetStep_congr (.connect dest hg) (by simp [greeter, greeting, known_update])
  | hello hpc hpeer =>
      rename_i t dest rest
      have hg : s.greeter.greeting = some dest := by simp [greeter, greeting, hpc]
      exact greetStep_congr (.hello hg) (by simp [greeter, greeting, unlock])
  | subSockNew hpc hq hpub hpid hmap hpeer =>
      rename_i rest behind junk gid m q pid sent
      cases sent with
      | true =>
          have hg : s.greeter.greeting = none := by simp [greeter, greeting, hpc]
          have hm : ¬ (Msg.mk commHandlerSubInit .comm : Msg τ).IsHello := fun hello =>
            hello.data_ne rfl
          exact greetStep_congr (.emit (hpeer rfl) hg hm)
            (by simp [greeter, greeting, hpc, unlock, subReply])
      | false =>
          exact greetStep_congr .skip (by simp [greeter, greeting, hpc, unlock, subReply])
  | startupNext hpc | startupDone hpc | startupFail hpc | startupSilent hpc | poll hpc | pollFail hpc
  | recvFail hpc | recvFailConn hpc | msgqLost hpc | monitorOk hpc | monitorFail hpc
  | monitorAbort hpc | connFail hpc | pubSend hpc | pubSendFail hpc | sub hpc | subConnFail hpc
  | subSetFail hpc | subSpin hpc | subSockOld hpc | subSockTask hpc | pubStart hpc | pubStartFail hpc
  | shutdown hpc | pushTask hpc | pushTaskLost hpc | pushSuber hpc | pushSuberLost hpc =>
      exact greetStep_congr .skip (by simp [greeter, greeting, hpc, unlock, failed])

/-- The application and the constructor leave the greeter alone. -/
theorem greeter_appStep {s s' : CommHandler τ} {t : τ} {l : AppLabel} (h : s.appStep t l = some s') :
    s'.greeter = s.greeter := by
  have hf := appFrame_of_appStep h
  simp only [greeter, greeting, hf.pc, hf.routerOut, hf.routerIn, hf.clientmap, hf.routerConns,
    hf.peers]

/-- Only a served connect adds a destination. -/
theorem named_commStep {hwm : Nat} {s s' : CommHandler τ} {l : CommLabel τ} {dest : Cliid}
    (h : s.commStep hwm l = some s') (hnamed : s'.greeter.named = s.greeter.named ++ [dest]) :
    s.connectsTo l = some dest := by
  cases commTrans_of_commStep h with
  | conn hpc hpop =>
      simp only [greeter, List.map_append, List.map_singleton, List.append_cancel_left_eq,
        List.cons.injEq, and_true] at hnamed
      subst hnamed
      simp [connectsTo, hpop]
  | _ => simp [greeter, unlock, failed] at hnamed

/-- A comm step keeps the tasks clean when what it takes for a task is not from a comm thread. -/
theorem appTasks_commStep {hwm : Nat} {s s' : CommHandler τ} {l : CommLabel τ} (hs : s.AppTasks)
    (h : s.commStep hwm l = some s')
    (hrouter : ∀ c m q, pop c s.routerIn = some (m, q) → s.clientmap c = some true →
      forwarded m.data ≠ commHandlerSubInit → m.origin ≠ .comm)
    (hsub : ∀ gid m q behind, s.subSock = (gid, m) :: q →
      (m.data ++ behind).take commHandlerPubInit.length ≠ commHandlerPubInit → m.origin ≠ .comm) :
    s'.AppTasks := by
  have hlog : ∀ {u : CommHandler τ}, u.taskLog = s.taskLog →
      (∀ e ∈ u.heldTask, e.2.origin ≠ .comm) → u.AppTasks := by
    intro u hu hheld e he
    rcases List.mem_append.mp he with he | he
    · exact hs e (List.mem_append_left _ (hu ▸ he))
    · exact hheld e he
  have hnone : ∀ {u : CommHandler τ}, u.taskLog = s.taskLog → u.heldTask = [] → u.AppTasks := by
    intro u hu hheld
    refine hlog hu ?_
    rw [hheld]
    intro e he
    cases he
  cases commTrans_of_commStep h with
  | helloRetry => exact hs
  | routerTask hpc hpop hd hmap =>
      refine hlog rfl ?_
      intro e he
      rw [show e = _ from List.mem_singleton.mp he, Msg.forwarded_origin]
      exact hrouter _ _ _ hpop hmap hd
  | subSockTask hpc hq hpub =>
      refine hlog rfl ?_
      intro e he
      rw [show e = _ from List.mem_singleton.mp he, Msg.forwarded_origin]
      exact hsub _ _ _ _ hq hpub
  | pushTask hpc =>
      intro e he
      refine hs e ?_
      simpa [heldTask, hpc] using he
  | _ => exact hnone rfl rfl

theorem appTasks_appStep {s s' : CommHandler τ} {t : τ} {l : AppLabel} (hs : s.AppTasks)
    (h : s.appStep t l = some s') : s'.AppTasks := by
  have hf := appFrame_of_appStep h
  rw [AppTasks, heldTask, hf.pc, hf.taskLog]
  exact hs

end CommHandler

/-! ## The network -/

/-- Neither node has connected to the other when a comm thread serves a `connect_to`. -/
def FirstConnect (ext : N → Cliid) (w : N → CommHandler τ) : NetLabel N τ → Prop
  | .comm n l => ∀ dest, (w n).connectsTo l = some dest →
      dest ∉ (w n).routerConns.map Prod.fst ∧
        ∀ b, nodeKey ext b = dest → nodeKey ext n ∉ (w b).routerConns.map Prod.fst
  | _ => True

/-- **Only application payloads reach the application**: nothing pushed on a `taskq` was written by
a comm thread, and the receive calls give out only bytes passed to `send` or `publish`. -/
structure AppOnly (ls : List (NetLabel N τ)) (w : N → CommHandler τ) : Prop where
  pushed : ∀ n e, e ∈ (w n).taskLog → e.2.origin ≠ .comm
  returned : ∀ n k t x data, (k, t, x, data) ∈ (w n).received → Passed ls data

section

variable {ext : N → Cliid} {home : τ → N} {ls : List (NetLabel N τ)} {hwm : Nat}
  {w w' : N → CommHandler τ}

/-- What holds in the runs in which every connect is the first one between its nodes. -/
structure HelloInv (ext : N → Cliid) (home : τ → N) (ls : List (NetLabel N τ))
    (w : N → CommHandler τ) : Prop where
  sourced : ∀ n, Sourced (nodeKey ext) home ls n (w n)
  greeted : Greeted (nodeKey ext) fun n => (w n).greeter
  receipts : ∀ n, (w n).Receipts
  tasks : ∀ n, (w n).AppTasks

theorem helloInv_init (acceptConns : N → Bool) :
    HelloInv ext home ls (netInit τ ext acceptConns) := by
  refine ⟨sourced_init acceptConns, ⟨?_, ?_, ?_⟩, fun n => CommHandler.receipts_init _ _, ?_⟩
  · intro a b hpeer
    cases hpeer
  · intro a
    rfl
  · intro a b hab
    refine ⟨fun _ _ => ⟨rfl, by simp [netInit, CommHandler.greeter, CommHandler.init]⟩, ?_, ?_, ?_⟩
    · intro hg
      cases hg
    · intro hk m hm
      cases hm
    · intro hk m r hr
      cases hr
  · intro n e he
    cases he

theorem greeter_update (n : N) (s : CommHandler τ) :
    (fun x => (Function.update w n s x).greeter) =
      Function.update (fun x => (w x).greeter) n s.greeter :=
  funext fun x => Function.apply_update (fun _ => CommHandler.greeter) w n s x

/-- A step of a node that leaves its greeter alone. -/
theorem greeted_of_eq (hw : Greeted (nodeKey ext) fun n => (w n).greeter) {n : N}
    {s : CommHandler τ} (hs : s.greeter = (w n).greeter) :
    Greeted (nodeKey ext) fun x => (Function.update w n s x).greeter := by
  rw [greeter_update, hs, Function.update_eq_self]
  exact hw

/-- What the router block takes for a task is not from a comm thread. -/
theorem HelloInv.router (hw : HelloInv ext home ls w) {n : N} {c : Cliid} {m : Msg τ}
    {q : List (Cliid × Msg τ)} (hpop : pop c (w n).routerIn = some (m, q))
    (hmap : (w n).clientmap c = some true) (hd : forwarded m.data ≠ commHandlerSubInit) :
    m.origin ≠ .comm := by
  obtain ⟨a, ha, hfrom⟩ := (hw.sourced n).inbox _ (mem_of_pop hpop)
  have hca : c = nodeKey ext a := ha
  subst hca
  rw [forwarded_of_lt hfrom.short] at hd
  cases hfrom with
  | hello ho hinit =>
      have hk : ((w n).greeter).known (nodeKey ext a) = true := by simp [CommHandler.greeter, hmap]
      exact absurd ⟨ho, hinit⟩ (hw.greeted.not_hello (a := a) (b := n) hk hpop)
  | reply ho hsub => exact absurd hsub hd
  | sent h hlen hm =>
      obtain ⟨t, x, ho, -⟩ := h
      rw [show m.origin = _ from congrArg Msg.origin hm, Msg.forwarded_origin, ho]
      simp

/-- What the SUB block takes for a task is not from a comm thread. -/
theorem HelloInv.sub (hw : HelloInv ext home ls w) {n : N} {gid : Cliid} {m : Msg τ}
    {q : List (Cliid × Msg τ)} {behind : Bytes} (hq : (w n).subSock = (gid, m) :: q)
    (hpub : (m.data ++ behind).take commHandlerPubInit.length ≠ commHandlerPubInit) :
    m.origin ≠ .comm := by
  obtain ⟨a, hfrom⟩ := (hw.sourced n).arrived (gid, m) (hq ▸ List.mem_cons_self)
  cases hfrom with
  | announcement ho hd =>
      rw [show m.data = _ from hd, pubHello_take] at hpub
      exact absurd rfl hpub
  | published h hlen hm =>
      obtain ⟨t, ho, -⟩ := h
      rw [show m.origin = _ from congrArg Msg.origin hm, Msg.forwarded_origin, ho]
      simp

/-- A step of one node that leaves its handshakes and what `recv` gives out as they are. -/
theorem HelloInv.quiet (hw : HelloInv ext home ls w) {n : N} {s : CommHandler τ}
    (hsourced : ∀ x, Sourced (nodeKey ext) home ls x (Function.update w n s x))
    (hgreeter : s.greeter = (w n).greeter) (hpipes : s.taskPipes = (w n).taskPipes)
    (hlog : s.taskLog = (w n).taskLog) (hreceived : s.received = (w n).received)
    (hheld : s.heldTask = (w n).heldTask) : HelloInv ext home ls (Function.update w n s) := by
  refine ⟨hsourced, greeted_of_eq hw.greeted hgreeter, forall_update hw.receipts n ?_,
    forall_update hw.tasks n ?_⟩
  · exact CommHandler.receipts_congr (hw.receipts n) hpipes hlog hreceived
  · rw [CommHandler.AppTasks, hlog, hheld]
    exact hw.tasks n

/-- **Every step at which a connect is the first one keeps the invariant.** -/
theorem helloInv_step (hinj : Function.Injective (nodeKey ext)) (hw : HelloInv ext home ls w)
    {l : NetLabel N τ} (hl : l ∈ ls) (hok : FirstConnect ext w l)
    (h : netStep ext home hwm w l = some w') : HelloInv ext home ls w' := by
  have hsourced := sourced_step hl hw.sourced h
  cases netTrans_of_netStep h with
  | comm hs =>
      rename_i n l s
      have hqueue : ∀ e ∈ (w n).msgq, e.2.2.origin ≠ .comm := by
        intro e he
        obtain ⟨t, x, ho, -⟩ := (hw.sourced n).queued e he
        rw [ho]
        simp
      refine ⟨hsourced, ?_, ?_, ?_⟩
      · rw [greeter_update]
        refine hw.greeted.node (CommHandler.greetStep_of_commStep hqueue (hw.sourced n).short hs) ?_
        intro dest hnamed
        exact hok dest (CommHandler.named_commStep hs hnamed)
      · exact forall_update hw.receipts n (CommHandler.receipts_commStep (hw.receipts n) hs)
      · refine forall_update hw.tasks n (CommHandler.appTasks_commStep (hw.tasks n) hs ?_ ?_)
        · intro c m q hpop hmap hd
          exact hw.router hpop hmap hd
        · intro gid m q behind hq hpub
          exact hw.sub hq hpub
  | app hs =>
      exact ⟨hsourced, greeted_of_eq hw.greeted (CommHandler.greeter_appStep hs),
        forall_update hw.receipts _ (CommHandler.receipts_appStep (hw.receipts _) hs),
        forall_update hw.tasks _ (CommHandler.appTasks_appStep (hw.tasks _) hs)⟩
  | ctor hs => exact hw.quiet hsourced rfl rfl rfl rfl rfl
  | monitor => exact hw.quiet hsourced rfl rfl rfl rfl rfl
  | linkUp hne hnamed =>
      rename_i a b
      refine ⟨hsourced, ?_, ?_, ?_⟩
      · rw [greeter_update, greeter_update]
        exact hw.greeted.linkUp hinj hnamed
      · exact forall_update₂ hw.receipts a b
          (CommHandler.receipts_congr (hw.receipts a) rfl rfl rfl)
          (CommHandler.receipts_congr (hw.receipts b) rfl rfl rfl)
      · exact forall_update₂ hw.tasks a b (hw.tasks a) (hw.tasks b)
  | transfer hne hpop =>
      rename_i a b m q
      refine ⟨hsourced, ?_, ?_, ?_⟩
      · rw [greeter_update, greeter_update]
        exact hw.greeted.transfer hinj hne hpop
      · exact forall_update₂ hw.receipts a b
          (CommHandler.receipts_congr (hw.receipts a) rfl rfl rfl)
          (CommHandler.receipts_congr (hw.receipts b) rfl rfl rfl)
      · exact forall_update₂ hw.tasks a b (hw.tasks a) (hw.tasks b)
  | multicast hpub hsub => exact hw.quiet hsourced rfl rfl rfl rfl rfl

end

/-- **Handshake messages never reach the application in the runs in which every served `connect_to`
is the first one between its two nodes**, and the bytes given out are bytes that were passed when no
payload passed is one that is cut short. Any set of nodes with distinct identities, any interleaving,
any message lost or refused. -/
theorem no_handshake_on_taskq (ext : N → Cliid) (hinj : Function.Injective (nodeKey ext))
    (home : τ → N) (hwm : Nat) (acceptConns : N → Bool) (ls : List (NetLabel N τ))
    (hok : Meets (netStep ext home hwm) (FirstConnect ext) (netInit τ ext acceptConns) ls)
    (hsend : ∀ l ∈ ls, IntactSend l) (hpublish : ∀ l ∈ ls, IntactPublish l) (w : N → CommHandler τ)
    (hrun : exec (netStep ext home hwm) (netInit τ ext acceptConns) ls = some w) :
    AppOnly ls w := by
  have hmem : Meets (netStep ext home hwm) (fun _ l => l ∈ ls) (netInit τ ext acceptConns) ls :=
    meets_of_forall_mem fun l hl _ => hl
  have hstep : ∀ (v : N → CommHandler τ) (l : NetLabel N τ) (v' : N → CommHandler τ),
      HelloInv ext home ls v → FirstConnect ext v l ∧ l ∈ ls → netStep ext home hwm v l = some v' →
      HelloInv ext home ls v' := fun v l v' hv hl h => helloInv_step hinj hv hl.2 hl.1 h
  have hw : HelloInv ext home ls w :=
    exec_invariant_of_meets hstep (helloInv_init acceptConns) (hok.and hmem) hrun
  refine ⟨fun n e he => hw.tasks n e (List.mem_append_left _ he), ?_⟩
  intro n k t x data hmem
  obtain ⟨c, m, hget, hdata, -⟩ := (hw.receipts n).given _ hmem
  have he : (c, m) ∈ (w n).taskLog ++ (w n).heldTask :=
    List.mem_append_left _ (List.mem_of_getElem? hget)
  rw [show data = m.data from hdata]
  exact ((hw.sourced n).tasks _ he (hw.tasks n _ he)).passed hsend hpublish

instance [Fintype N] (ext : N → Cliid) (w : N → CommHandler τ) :
    ∀ l : NetLabel N τ, Decidable (FirstConnect ext w l)
  | .comm n l =>
      match h : (w n).connectsTo l with
      | some dest => decidable_of_iff
          (dest ∉ (w n).routerConns.map Prod.fst ∧
            ∀ b, nodeKey ext b = dest → nodeKey ext n ∉ (w b).routerConns.map Prod.fst)
          (by simp only [FirstConnect, h, Option.some.injEq, forall_eq'])
      | none => isTrue (by simp [FirstConnect, h])
  | .app _ _ | .ctor _ _ | .monitor _ _ | .linkUp _ _ | .transfer _ _ | .multicast _ _ _ _ =>
      isTrue trivial

/-- The run of `twoNodes` has one connect, so what node 3 has received is a payload. -/
theorem no_handshake_on_taskq_twoNodes :
    ∃ w : Bool → CommHandler Bool,
      exec (netStep (fun b => if b then 3 else 2) id 10)
        (netInit Bool (fun b => if b then 3 else 2) id) twoNodes = some w ∧
      (w true).received = [(0, true, 2, [104])] ∧ AppOnly twoNodes w := by
  obtain ⟨w, hrun, hw⟩ := exists_exec (netStep (fun b => if b then 3 else 2) id 10)
    (netInit Bool (fun b => if b then 3 else 2) id) twoNodes
    (fun w => (w true).received = [(0, true, 2, [104])]) (by decide)
  refine ⟨w, hrun, of_decide_eq_true hw, ?_⟩
  refine no_handshake_on_taskq _ ?_ id 10 id twoNodes ?_ ?_ ?_ w hrun
  · intro a b hab
    revert a b
    decide
  · decide
  · simp [twoNodes, IntactSend]
    decide
  · simp [twoNodes, IntactPublish]

/-- Node 2 connects to node 3 twice: the second hello is pushed on `taskq` and given out by `recv`.
-/
theorem handshake_on_taskq_reconnect :
    ∃ w : Bool → CommHandler Bool,
      exec (netStep (fun b => if b then 3 else 2) id 10)
        (netInit Bool (fun b => if b then 3 else 2) id)
        [.comm false (.startup true), .comm false (.startup true), .comm false (.startup true),
          .ctor false .relock, .ctor false .unlock,
          .comm true (.startup true), .comm true (.startup true), .comm true (.startup true),
          .comm true (.startup true), .ctor true .relock, .ctor true .unlock,
          .app false (.connectTo [104] [49] 3), .app false .lock, .app false (.sendReq true),
          .comm false (.poll true), .comm false (.conn false [0] true), .linkUp false true,
          .comm false (.hello true), .app false .relock, .app false .unlock, .app false .test,
          .app false (.connectTo [104] [49] 3), .app false .lock, .app false (.sendReq true),
          .comm false (.poll true), .comm false (.conn false [0] true), .comm false (.hello true),
          .transfer false true, .transfer false true, .comm true (.poll true),
          .comm true (.router (ide2i 2)), .comm true (.poll true), .comm true (.router (ide2i 2)),
          .app true .recv, .comm true (.push (some true)), .app true .recvDone] = some w ∧
      (w true).taskLog = [(ide2i 2, ⟨commHandlerInit, .comm⟩)] ∧
      (w true).received = [(0, true, 2, commHandlerInit)] := by
  refine (exists_exec (netStep (fun b => if b then 3 else 2) id 10)
    (netInit Bool (fun b => if b then 3 else 2) id) _
    (fun w => (w true).taskLog = [(ide2i 2, ⟨commHandlerInit, .comm⟩)] ∧
      (w true).received = [(0, true, 2, commHandlerInit)]) ?_).imp
    fun w hw => ⟨hw.1, of_decide_eq_true hw.2⟩
  decide

end CommTest.Zmq
