import CommTest.Zmq.Application
import Mathlib.Tactic.SplitIfs

/-!
# What one step of a node can do

`commStep` and `appStep` are nested matches; here their enabled cases are listed once, as the
constructors of `CommTrans` and `AppTrans`, and `commTrans_of_commStep` / `appTrans_of_appStep` say
that the lists are complete. Every invariant of a node is then a case analysis over these
constructors, and a change of one event block changes one constructor.
-/

set_option linter.unusedSectionVars false

namespace CommTest.Zmq

open FairQueue

variable {τ : Type} [DecidableEq τ]

namespace CommHandler

/-- The steps of the comm thread, one constructor per path through `start_handler`. -/
inductive CommTrans (hwm : Nat) (s : CommHandler τ) : CommLabel τ → CommHandler τ → Prop
  | startupNext {st st'} (hpc : s.pc = .startup st) :
      CommTrans hwm s (.startup true) { s with pc := .startup st' }
  | startupDone {st} (hpc : s.pc = .startup st) :
      CommTrans hwm s (.startup true) ({ s with pc := .blocks [] }.unlock)
  | startupFail (hpc : s.pc = .startup .socketMonitor) :
      CommTrans hwm s (.startup false) ((s.failed (.startup .socketMonitor)).unlock)
  | startupSilent {st} (hpc : s.pc = .startup st) (hst : st ≠ .socketMonitor) :
      CommTrans hwm s (.startup false) ({ s with pc := .exited (.startup st) }.unlock)
  | poll (hpc : s.pc = .blocks []) (hne : blockOrder.filter s.ready ≠ []) :
      CommTrans hwm s (.poll true) { s with pc := .blocks (blockOrder.filter s.ready) }
  | pollFail (hpc : s.pc = .blocks []) : CommTrans hwm s (.poll false) (s.failed .poll)
  | recvFail {b rest} (hpc : s.pc = .blocks (b :: rest)) (hb : b ≠ .conn) (hs : b ≠ .shutdown) :
      CommTrans hwm s .recvFail (s.failed (.block b))
  | recvFailConn {rest} (hpc : s.pc = .blocks (.conn :: rest)) :
      CommTrans hwm s .recvFail ((s.failed (.block .conn)).unlock)
  | msgqSent {rest t cid m q} (hpc : s.pc = .blocks (.msgq :: rest))
      (hpop : pop t s.msgq = some ((cid, m), q)) (hpeer : cid ∈ s.peers)
      (hlen : ¬ recvLen m.data < 0) :
      CommTrans hwm s (.msgq t true)
        { s with msgq := q, routerOut := s.routerOut ++ [(cid, m.forwarded)],
                 routerLog := s.routerLog ++ [(t, cid, m)], pc := .blocks rest }
  | msgqLost {rest t cid m q} (hpc : s.pc = .blocks (.msgq :: rest))
      (hpop : pop t s.msgq = some ((cid, m), q)) :
      CommTrans hwm s (.msgq t false) { s with msgq := q, pc := .blocks rest }
  | routerSuber {rest c m q} (hpc : s.pc = .blocks (.router :: rest))
      (hpop : pop c s.routerIn = some (m, q)) (hd : forwarded m.data = commHandlerSubInit)
      (hlen : ¬ recvLen m.data < 0) :
      CommTrans hwm s (.router c) { s with routerIn := q, pc := .pushSuber c m.forwarded rest }
  | routerClient {rest c m q} (hpc : s.pc = .blocks (.router :: rest))
      (hpop : pop c s.routerIn = some (m, q)) (hd : forwarded m.data ≠ commHandlerSubInit)
      (hmap : s.clientmap c ≠ some true) (hlen : ¬ recvLen m.data < 0) :
      CommTrans hwm s (.router c)
        { s with routerIn := q, clientmap := Function.update s.clientmap c (some true),
                 clientq := s.clientq ++ [idi2e c], clientLog := s.clientLog ++ [idi2e c],
                 pc := .blocks rest }
  | routerTask {rest c m q} (hpc : s.pc = .blocks (.router :: rest))
      (hpop : pop c s.routerIn = some (m, q)) (hd : forwarded m.data ≠ commHandlerSubInit)
      (hmap : s.clientmap c = some true) (hlen : ¬ recvLen m.data < 0) :
      CommTrans hwm s (.router c) { s with routerIn := q, pc := .pushTask c m.forwarded rest }
  | monitorOk {rest e q} (hpc : s.pc = .blocks (.monitor :: rest)) (hq : s.monitorSock = e :: q) :
      CommTrans hwm s .monitor { s with monitorSock := q, pc := .blocks rest }
  | monitorFail {rest e q} (hpc : s.pc = .blocks (.monitor :: rest)) (hq : s.monitorSock = e :: q) :
      CommTrans hwm s .monitor ({ s with monitorSock := q }.failed (.block .monitor))
  | monitorAbort {rest e q} (hpc : s.pc = .blocks (.monitor :: rest)) (hq : s.monitorSock = e :: q) :
      CommTrans hwm s .monitor { s with monitorSock := q, pc := .aborted }
  | conn {rest t behind dest text q} (hpc : s.pc = .blocks (.conn :: rest))
      (hpop : pop t s.connSock = some ((dest, text), q)) :
      CommTrans hwm s (.conn t behind true)
        { s with connSock := q, routerConns := s.routerConns ++ [(dest, cstr text behind)],
                 clientmap := Function.update s.clientmap dest (some true),
                 pc := .hello t dest rest }
  | connFail {rest t behind dest text q} (hpc : s.pc = .blocks (.conn :: rest))
      (hpop : pop t s.connSock = some ((dest, text), q)) :
      CommTrans hwm s (.conn t behind false)
        (({ s with connSock := q }.failed (.block .conn)).unlock)
  | hello {t dest rest} (hpc : s.pc = .hello t dest rest) (hpeer : dest ∈ s.peers) :
      CommTrans hwm s (.hello true)
        ({ s with routerOut := s.routerOut ++ [(dest, Msg.mk commHandlerInit .comm)],
                  pc := .blocks rest }.unlock)
  | helloRetry {t dest rest} (hpc : s.pc = .hello t dest rest) : CommTrans hwm s (.hello false) s
  | pubSend {rest t gid m q} (hpc : s.pc = .blocks (.pubSend :: rest))
      (hpop : pop t s.pubSendpull = some ((gid, m), q)) (hlen : ¬ recvLen m.data < 0)
      (hgid : ¬ gid < 0) :
      CommTrans hwm s (.pubSend t true)
        { s with pubSendpull := q, pubOut := s.pubOut ++ [(gid, m.forwarded)],
                 pc := .blocks rest }
  | pubSendFail {rest t ok gid m q} (hpc : s.pc = .blocks (.pubSend :: rest))
      (hpop : pop t s.pubSendpull = some ((gid, m), q)) :
      CommTrans hwm s (.pubSend t ok) ({ s with pubSendpull := q }.failed (.block .pubSend))
  | sub {rest t behind junk fails text q ids} (hpc : s.pc = .blocks (.sub :: rest))
      (hpop : pop t s.subpull = some (text, q)) (hids : subRequestGids junk text behind = some ids) :
      CommTrans hwm s (.sub t behind junk fails)
        { s with subpull := q, subConns := s.subConns ++ subRequestAddr text behind,
                 subGroups := s.subGroups ++ ids, pc := .blocks rest }
  | subConnFail {rest t behind junk fails text q} (hpc : s.pc = .blocks (.sub :: rest))
      (hpop : pop t s.subpull = some (text, q)) (haddr : subRequestAddr text behind ≠ []) :
      CommTrans hwm s (.sub t behind junk fails) ({ s with subpull := q }.failed (.block .sub))
  | subSetFail {rest t behind junk fails text q ids k} (hpc : s.pc = .blocks (.sub :: rest))
      (hpop : pop t s.subpull = some (text, q)) (hids : subRequestGids junk text behind = some ids) :
      CommTrans hwm s (.sub t behind junk fails)
        ({ s with subpull := q, subConns := s.subConns ++ subRequestAddr text behind,
                  subGroups := s.subGroups ++ ids.take k }.failed (.block .sub))
  | subSpin {rest t behind junk fails text q} (hpc : s.pc = .blocks (.sub :: rest))
      (hpop : pop t s.subpull = some (text, q)) (hids : subRequestGids junk text behind = none) :
      CommTrans hwm s (.sub t behind junk fails)
        { s with subpull := q, subConns := s.subConns ++ subRequestAddr text behind,
                 pc := .spinning }
  | subSockNew {rest behind junk gid m q pid} {sent : Bool}
      (hpc : s.pc = .blocks (.subSock :: rest)) (hq : s.subSock = (gid, m) :: q)
      (hpub : (m.data ++ behind).take commHandlerPubInit.length = commHandlerPubInit)
      (hpid : pid = pubId junk (cstr m.data behind)) (hmap : s.publishermap pid = none)
      (hpeer : sent = true → pid ∈ s.peers) :
      CommTrans hwm s (.subSock behind junk sent)
        ({ s with subSock := q, publishermap := Function.update s.publishermap pid (some true),
                  routerOut := s.routerOut ++ subReply sent pid, pc := .blocks rest }.unlock)
  | subSockOld {rest behind junk sent gid m q} (hpc : s.pc = .blocks (.subSock :: rest))
      (hq : s.subSock = (gid, m) :: q)
      (hpub : (m.data ++ behind).take commHandlerPubInit.length = commHandlerPubInit)
      (hmap : s.publishermap (pubId junk (cstr m.data behind)) ≠ none) :
      CommTrans hwm s (.subSock behind junk sent) { s with subSock := q, pc := .blocks rest }
  | subSockTask {rest behind junk sent gid m q} (hpc : s.pc = .blocks (.subSock :: rest))
      (hq : s.subSock = (gid, m) :: q)
      (hpub : (m.data ++ behind).take commHandlerPubInit.length ≠ commHandlerPubInit) :
      CommTrans hwm s (.subSock behind junk sent)
        { s with subSock := q, pc := .pushTask (ide2i gid) m.forwarded rest }
  | pubStart {rest t behind text q} (hpc : s.pc = .blocks (.pubStart :: rest))
      (hpop : pop t s.pubstartPull = some (text, q)) :
      CommTrans hwm s (.pubStart t behind true)
        ({ s with pubstartPull := q, pubBinds := s.pubBinds ++ [cstr text behind],
                  pc := .blocks rest }.unlock)
  | pubStartFail {rest t behind text q} (hpc : s.pc = .blocks (.pubStart :: rest))
      (hpop : pop t s.pubstartPull = some (text, q)) :
      CommTrans hwm s (.pubStart t behind false)
        ({ s with pubstartPull := q }.failed (.block .pubStart))
  | shutdown {rest} (hpc : s.pc = .blocks (.shutdown :: rest)) :
      CommTrans hwm s .shutdown { s with pc := .exited .shutdown }
  | pushTask {cid m rest t} (hpc : s.pc = .pushTask cid m rest) (ht : t ∈ s.taskPullers)
      (hroom : (pipe t s.taskPipes).length < hwm) :
      CommTrans hwm s (.push (some t))
        { s with taskPipes := s.taskPipes ++ [(t, s.taskLog.length, cid, m)],
                 taskLog := s.taskLog ++ [(cid, m)], pc := .blocks rest }
  | pushTaskLost {cid m rest} (hpc : s.pc = .pushTask cid m rest) :
      CommTrans hwm s (.push none) { s with pc := .blocks rest }
  | pushSuber {cid m rest t} (hpc : s.pc = .pushSuber cid m rest) (ht : t ∈ s.suberPullers)
      (hroom : (pipe t s.suberPipes).length < hwm) :
      CommTrans hwm s (.push (some t))
        ({ s with suberPipes := s.suberPipes ++ [(t, cid, m)],
                  suberLog := s.suberLog ++ [(cid, m)], pc := .blocks rest }.unlock)
  | pushSuberLost {cid m rest} (hpc : s.pc = .pushSuber cid m rest) :
      CommTrans hwm s (.push none) ({ s with pc := .blocks rest }.unlock)

theorem startupStep_trans {hwm : Nat} {s : CommHandler τ} {st : Startup} {ok : Bool}
    (hpc : s.pc = .startup st) : CommTrans hwm s (.startup ok) (s.startupStep st ok) := by
  cases st with
  | setsockopt =>
      cases ok with
      | true => exact .startupNext hpc
      | false => exact .startupSilent hpc (by decide)
  | socketMonitor =>
      cases ok with
      | true => exact .startupNext hpc
      | false => exact .startupFail hpc
  | monitorConnect =>
      cases ok with
      | true =>
          simp only [startupStep, if_true]
          split_ifs
          · exact .startupNext hpc
          · exact .startupDone hpc
      | false => exact .startupSilent hpc (by decide)
  | bind =>
      cases ok with
      | true => exact .startupDone hpc
      | false => exact .startupSilent hpc (by decide)

theorem msgqBlock_trans {hwm : Nat} {s s' : CommHandler τ} {t : τ} {sent : Bool}
    {rest : List Block} (hpc : s.pc = .blocks (.msgq :: rest))
    (h : s.msgqBlock t sent rest = some s') : CommTrans hwm s (.msgq t sent) s' := by
  unfold msgqBlock at h
  split at h
  · cases h
  rename_i cid m q hpop
  split_ifs at h with hlen hsent hpeer
  · cases h
    subst hsent
    exact .msgqSent hpc hpop hpeer hlen
  · cases h
    rw [Bool.not_eq_true] at hsent
    subst hsent
    exact .msgqLost hpc hpop

theorem routerBlock_trans {hwm : Nat} {s s' : CommHandler τ} {c : Cliid} {rest : List Block}
    (hpc : s.pc = .blocks (.router :: rest)) (h : s.routerBlock c rest = some s') :
    CommTrans hwm s (.router c) s' := by
  unfold routerBlock at h
  split at h
  · cases h
  rename_i m q hpop
  split_ifs at h with hlen
  unfold routerDest at h
  by_cases hsub : IsSubInit m.data
  · rw [if_pos hsub] at h
    cases h
    exact .routerSuber hpc hpop (isSubInit_iff.mp hsub) hlen
  · have hd : forwarded m.data ≠ commHandlerSubInit := fun hd => hsub (isSubInit_iff.mpr hd)
    rw [if_neg hsub] at h
    -- an absent entry and a `false` entry take the same path
    cases hmap : s.clientmap c with
    | none =>
        rw [hmap] at h
        cases h
        exact .routerClient hpc hpop hd (by simp [hmap]) hlen
    | some b =>
        rw [hmap] at h
        cases b with
        | false =>
            cases h
            exact .routerClient hpc hpop hd (by simp [hmap]) hlen
        | true =>
            cases h
            exact .routerTask hpc hpop hd hmap hlen

theorem monitorBlock_trans {hwm : Nat} {s s' : CommHandler τ} {rest : List Block}
    (hpc : s.pc = .blocks (.monitor :: rest)) (h : s.monitorBlock rest = some s') :
    CommTrans hwm s .monitor s' := by
  unfold monitorBlock at h
  split at h
  · cases h
  · rename_i q hq
    cases h
    exact .monitorAbort hpc hq
  · rename_i n q hq
    cases h
    exact .monitorFail hpc hq
  · rename_i e q _ _ hq
    cases h
    exact .monitorOk hpc hq

theorem connBlock_trans {hwm : Nat} {s s' : CommHandler τ} {t : τ} {behind : Bytes} {ok : Bool}
    {rest : List Block} (hpc : s.pc = .blocks (.conn :: rest))
    (h : s.connBlock t behind ok rest = some s') : CommTrans hwm s (.conn t behind ok) s' := by
  unfold connBlock at h
  split at h
  · cases h
  rename_i dest text q hpop
  split_ifs at h with hlen hok
  · cases h
    subst hok
    exact .conn hpc hpop
  · cases h
    rw [Bool.not_eq_true] at hok
    subst hok
    exact .connFail hpc hpop

theorem helloStep_trans {hwm : Nat} {s s' : CommHandler τ} {t : τ} {dest : Cliid} {ok : Bool}
    {rest : List Block} (hpc : s.pc = .hello t dest rest)
    (h : s.helloStep dest ok rest = some s') : CommTrans hwm s (.hello ok) s' := by
  unfold helloStep at h
  cases ok with
  | true =>
      simp only [if_true] at h
      split_ifs at h with hpeer
      cases h
      exact .hello hpc hpeer
  | false =>
      cases h
      exact .helloRetry hpc

theorem pubSendBlock_trans {hwm : Nat} {s s' : CommHandler τ} {t : τ} {ok : Bool}
    {rest : List Block} (hpc : s.pc = .blocks (.pubSend :: rest))
    (h : s.pubSendBlock t ok rest = some s') : CommTrans hwm s (.pubSend t ok) s' := by
  unfold pubSendBlock at h
  split at h
  · cases h
  rename_i gid m q hpop
  split_ifs at h with hlen hneg hok
  · cases h
    exact .pubSendFail hpc hpop
  · cases h
    subst hok
    exact .pubSend hpc hpop hlen hneg
  · cases h
    exact .pubSendFail hpc hpop

theorem subBlock_trans {hwm : Nat} {s s' : CommHandler τ} {t : τ} {behind : Bytes} {junk : Cliid}
    {fails : Option Nat} {rest : List Block} (hpc : s.pc = .blocks (.sub :: rest))
    (h : s.subBlock t behind junk fails rest = some s') :
    CommTrans hwm s (.sub t behind junk fails) s' := by
  unfold subBlock at h
  split at h
  · cases h
  rename_i text q hpop
  split_ifs at h with hlen hfail
  · cases h
    exact .subConnFail hpc hpop hfail.1
  cases hids : subRequestGids junk text behind with
  | none =>
      rw [hids] at h
      cases h
      exact .subSpin hpc hpop hids
  | some ids =>
      rw [hids] at h
      cases fails with
      | none =>
          cases h
          exact .sub hpc hpop hids
      | some k =>
          cases k with
          | zero =>
              cases h
              exact .sub hpc hpop hids
          | succ k =>
              simp only at h
              split_ifs at h
              cases h
              exact .subSetFail hpc hpop hids

theorem subSockBlock_trans {hwm : Nat} {s s' : CommHandler τ} {behind : Bytes} {junk : Cliid}
    {sent : Bool} {rest : List Block} (hpc : s.pc = .blocks (.subSock :: rest))
    (h : s.subSockBlock behind junk sent rest = some s') :
    CommTrans hwm s (.subSock behind junk sent) s' := by
  unfold subSockBlock at h
  split at h
  · cases h
  rename_i gid m q hq
  split_ifs at h with hlen hpub
  · simp only at h
    by_cases hmap : s.publishermap (pubId junk (cstr m.data behind)) = none
    · rw [if_pos hmap] at h
      split_ifs at h with hsent
      cases h
      refine .subSockNew hpc hq hpub rfl hmap ?_
      intro hs
      by_contra hp
      exact hsent ⟨hs, hp⟩
    · rw [if_neg hmap] at h
      cases h
      exact .subSockOld hpc hq hpub hmap
  · cases h
    exact .subSockTask hpc hq hpub

theorem pubStartBlock_trans {hwm : Nat} {s s' : CommHandler τ} {t : τ} {behind : Bytes} {ok : Bool}
    {rest : List Block} (hpc : s.pc = .blocks (.pubStart :: rest))
    (h : s.pubStartBlock t behind ok rest = some s') :
    CommTrans hwm s (.pubStart t behind ok) s' := by
  unfold pubStartBlock at h
  split at h
  · cases h
  rename_i text q hpop
  split_ifs at h with hlen hok
  · cases h
    subst hok
    exact .pubStart hpc hpop
  · cases h
    rw [Bool.not_eq_true] at hok
    subst hok
    exact .pubStartFail hpc hpop

theorem recvFail_trans {hwm : Nat} {s s' : CommHandler τ} {b : Block} {rest : List Block}
    (hpc : s.pc = .blocks (b :: rest)) (h : s.recvFail b = some s') :
    CommTrans hwm s .recvFail s' := by
  cases b with
  | conn =>
      cases h
      exact .recvFailConn hpc
  | shutdown => cases h
  | msgq | router | monitor | pubSend | sub | subSock | pubStart =>
      cases h
      exact .recvFail hpc (by decide) (by decide)

theorem push_trans {hwm : Nat} {s s' : CommHandler τ} {cid : Cliid} {m : Msg τ} {dst : Option τ}
    {rest : List Block}
    (h : s.pc = .pushTask cid m rest ∧ pushTaskStep hwm s cid m dst rest = some s' ∨
      s.pc = .pushSuber cid m rest ∧ pushSuberStep hwm s cid m dst rest = some s') :
    CommTrans hwm s (.push dst) s' := by
  rcases h with ⟨hpc, h⟩ | ⟨hpc, h⟩
  · unfold pushTaskStep at h
    cases dst with
    | none =>
        cases h
        exact .pushTaskLost hpc
    | some t =>
        simp only at h
        split_ifs at h with hroom
        cases h
        exact .pushTask hpc hroom.1 hroom.2
  · unfold pushSuberStep at h
    cases dst with
    | none =>
        cases h
        exact .pushSuberLost hpc
    | some t =>
        simp only at h
        split_ifs at h with hroom
        cases h
        exact .pushSuber hpc hroom.1 hroom.2

/-- **The steps of the comm thread are the constructors of `CommTrans`.** -/
theorem commTrans_of_commStep {hwm : Nat} {s s' : CommHandler τ} {l : CommLabel τ}
    (h : s.commStep hwm l = some s') : CommTrans hwm s l s' := by
  unfold commStep at h
  split at h
  case h_1 st hpc =>
    split at h
    · cases h
      exact startupStep_trans hpc
    · cases h
  case h_2 hpc =>
    split at h
    · simp only at h
      split_ifs at h with hne
      cases h
      exact .poll hpc hne
    · cases h
      exact .pollFail hpc
    · cases h
  case h_3 b rest hpc =>
    split at h
    · exact recvFail_trans hpc h
    · exact msgqBlock_trans hpc h
    · exact routerBlock_trans hpc h
    · exact monitorBlock_trans hpc h
    · exact connBlock_trans hpc h
    · exact pubSendBlock_trans hpc h
    · exact subBlock_trans hpc h
    · exact subSockBlock_trans hpc h
    · exact pubStartBlock_trans hpc h
    · cases h
      exact .shutdown hpc
    · cases h
  case h_4 t dest rest hpc =>
    split at h
    · exact helloStep_trans hpc h
    · cases h
  case h_5 cid m rest hpc =>
    split at h
    · exact push_trans (.inl ⟨hpc, h⟩)
    · cases h
  case h_6 cid m rest hpc =>
    split at h
    · exact push_trans (.inr ⟨hpc, h⟩)
    · cases h
  all_goals cases h

/-- The steps of an application thread, one constructor per path through the member functions up to
the next wait. -/
inductive AppTrans (s : CommHandler τ) (t : τ) : AppLabel → CommHandler τ → Prop
  | reject {l api} (hpc : s.app t = .idle) : AppTrans s t l (s.ret t api (-1))
  | call {l r} (hpc : s.app t = .idle) : AppTrans s t l (s.goto t (.calling r))
  | announceStart {l gid numSubs} (hpc : s.app t = .idle) :
      AppTrans s t l (s.startAnnounce t gid numSubs)
  | lock {r} (hpc : s.app t = .calling r) (hm : s.mtx = none) :
      AppTrans s t .lock ({ s with mtx := some (.app t) }.goto t (.locked r))
  | sendReq {r} (hpc : s.app t = .locked r) :
      AppTrans s t (.sendReq true) ((s.enqueue t r).goto t (.waiting r))
  | sendReqFail {r} (hpc : s.app t = .locked r) :
      AppTrans s t (.sendReq false) ({ s with mtx := none }.ret t r.api (-1))
  | relock {r} (hpc : s.app t = .waiting r) (hm : s.mtx = none) :
      AppTrans s t .relock ({ s with mtx := some (.app t) }.goto t (.relocked r))
  | unlock {r} (hpc : s.app t = .relocked r) :
      AppTrans s t .unlock ({ s with mtx := none }.finish t r)
  | announce {gid numSubs nsubs} (hpc : s.app t = .announce gid numSubs nsubs)
      (herr : s.errcode = 0) (hlt : nsubs < numSubs) :
      AppTrans s t .announce
        ({ s with pubSendpull := s.pubSendpull ++ [(t, gid, Msg.mk (pubHello s.id) .comm)] }.goto t
          (.announced gid numSubs nsubs))
  | announced {gid numSubs nsubs} (hpc : s.app t = .announced gid numSubs nsubs)
      (herr : s.errcode = 0) : AppTrans s t .announced (s.goto t (.drain gid numSubs nsubs))
  | announcedFail {gid numSubs nsubs} (hpc : s.app t = .announced gid numSubs nsubs)
      (herr : s.errcode ≠ 0) : AppTrans s t .announced (s.ret t (.initPub gid) (-1))
  | announceEnd {gid numSubs nsubs v} (hpc : s.app t = .announce gid numSubs nsubs) :
      AppTrans s t .announce (s.ret t (.initPub gid) v)
  | drain {gid numSubs nsubs cid m q} (hpc : s.app t = .drain gid numSubs nsubs)
      (hpop : FairQueue.pop t s.suberPipes = some ((cid, m), q)) (hm : m.data ≠ []) :
      AppTrans s t .drain ({ s with suberPipes := q }.goto t (.drain gid numSubs (nsubs + 1)))
  | drainEmpty {gid numSubs nsubs cid m q} (hpc : s.app t = .drain gid numSubs nsubs)
      (hpop : FairQueue.pop t s.suberPipes = some ((cid, m), q)) :
      AppTrans s t .drain ({ s with suberPipes := q }.goto t (.announce gid numSubs nsubs))
  | drainEnd {gid numSubs nsubs} (hpc : s.app t = .drain gid numSubs nsubs) :
      AppTrans s t .drain (s.goto t (.announce gid numSubs nsubs))
  | publish {group data} (hpc : s.app t = .idle) (herr : s.errcode = 0) :
      AppTrans s t (.publish group data)
        ({ s with pubSendpull := s.pubSendpull ++ [(t, group, Msg.mk data (.publish t))] }.goto t
          (.testing (.publish group data) data.length))
  | send {cid data} (hpc : s.app t = .idle) (herr : s.errcode = 0) :
      AppTrans s t (.send cid data)
        ({ s with msgq := s.msgq ++ [(t, ide2i cid, Msg.mk data (.send t))],
                  sendLog := s.sendLog ++ [(t, ide2i cid, Msg.mk data (.send t))] }.goto t
          (.testing (.send cid data) data.length))
  | recv (hpc : s.app t = .idle) (herr : s.errcode = 0) :
      AppTrans s t .recv ((s.attachTask t).goto t .receiving)
  | recvDone {k cid m q} (hpc : s.app t = .receiving)
      (hpop : FairQueue.pop t s.taskPipes = some ((k, cid, m), q)) :
      AppTrans s t .recvDone
        ({ s with taskPipes := q,
                  received := s.received ++ [(k, t, recvCid cid, m.data)] }.goto t
          (.testing .recv m.data.length))
  | recvAsync {k cid m q} (hpc : s.app t = .idle) (herr : s.errcode = 0)
      (hpop : FairQueue.pop t s.taskPipes = some ((k, cid, m), q)) (hm : m.data ≠ []) :
      AppTrans s t .recvAsync
        ({ s.attachTask t with
            taskPipes := q,
            received := s.received ++ [(k, t, idi2e cid, m.data)] }.goto t
          (.testing .recvAsync m.data.length))
  | recvAsyncEmpty {k cid m q} (hpc : s.app t = .idle) (herr : s.errcode = 0)
      (hpop : FairQueue.pop t s.taskPipes = some ((k, cid, m), q)) (hm : m.data = []) :
      AppTrans s t .recvAsync ({ s.attachTask t with taskPipes := q }.ret t .recvAsync 0)
  | recvAsyncNone (hpc : s.app t = .idle) (herr : s.errcode = 0)
      (hpop : FairQueue.pop t s.taskPipes = none) :
      AppTrans s t .recvAsync ((s.attachTask t).ret t .recvAsync 0)
  | getOneConnection (hpc : s.app t = .idle) (herr : s.errcode = 0) (hacc : s.acceptConns = true) :
      AppTrans s t .getOneConnection (s.goto t .popping)
  | pop {c q} (hpc : s.app t = .popping) (hq : s.clientq = c :: q) :
      AppTrans s t .pop ({ s with clientq := q }.ret t .getOneConnection c.toInt)
  | shutdown (hpc : s.app t = .idle) :
      AppTrans s t .shutdown ({ s with shutdownSock := s.shutdownSock + 1 }.goto t .joining)
  | join {e} (hpc : s.app t = .joining) (he : s.pc = .exited e) :
      AppTrans s t .join (s.ret t .shutdown 0)
  | test {api v} (hpc : s.app t = .testing api v) :
      AppTrans s t .test (s.ret t api (if s.errcode ≠ 0 then -1 else v))

/-- **The steps of an application thread are the constructors of `AppTrans`.** -/
theorem appTrans_of_appStep {s s' : CommHandler τ} {t : τ} {l : AppLabel}
    (h : s.appStep t l = some s') : AppTrans s t l s' := by
  unfold appStep at h
  split at h
  case h_1 hpc =>
    split_ifs at h with herr <;> cases h
    · exact .reject hpc
    · exact .call hpc
  case h_2 hpc =>
    split_ifs at h <;> cases h
    · exact .call hpc
    · exact .announceStart hpc
  case h_3 hpc =>
    split_ifs at h with herr <;> cases h
    · exact .reject hpc
    · exact .call hpc
  case h_4 r hpc =>
    split_ifs at h with hm
    cases h
    exact .lock hpc hm
  case h_5 r ok hpc =>
    cases ok <;> cases h
    · exact .sendReqFail hpc
    · exact .sendReq hpc
  case h_6 r hpc =>
    split_ifs at h with hm
    cases h
    exact .relock hpc hm
  case h_7 r hpc =>
    cases h
    exact .unlock hpc
  case h_8 gid numSubs nsubs hpc =>
    split_ifs at h with hlt herr <;> cases h
    · exact .announceEnd hpc
    · exact .announce hpc (by simpa using herr) hlt
    · exact .announceEnd hpc
  case h_9 gid numSubs nsubs hpc =>
    split_ifs at h with herr <;> cases h
    · exact .announcedFail hpc herr
    · exact .announced hpc (by simpa using herr)
  case h_10 gid numSubs nsubs hpc =>
    split at h
    · split_ifs at h with hm <;> cases h
      · exact .drain hpc ‹_› hm
      · exact .drainEmpty hpc ‹_›
    · cases h
      exact .drainEnd hpc
  case h_11 group data hpc =>
    split_ifs at h with herr <;> cases h
    · exact .reject hpc
    · exact .publish hpc (by simpa using herr)
  case h_12 cid data hpc =>
    split_ifs at h with herr <;> cases h
    · exact .reject hpc
    · exact .send hpc (by simpa using herr)
  case h_13 hpc =>
    split_ifs at h with herr <;> cases h
    · exact .reject hpc
    · exact .recv hpc (by simpa using herr)
  case h_14 hpc =>
    split at h
    · cases h
      exact .recvDone hpc ‹_›
    · cases h
  case h_15 hpc =>
    split_ifs at h with herr
    · cases h
      exact .reject hpc
    have herr : s.errcode = 0 := by simpa using herr
    split at h
    · split_ifs at h with hm <;> cases h
      · exact .recvAsyncEmpty hpc herr ‹_› hm
      · exact .recvAsync hpc herr ‹_› hm
    · cases h
      exact .recvAsyncNone hpc herr ‹_›
  case h_16 hpc =>
    split_ifs at h with hacc <;> cases h
    · exact .reject hpc
    · rw [not_or] at hacc
      exact .getOneConnection hpc (by simpa using hacc.2) (by simpa using hacc.1)
  case h_17 hpc =>
    split at h
    · cases h
      exact .pop hpc ‹_›
    · cases h
  case h_18 hpc =>
    cases h
    exact .shutdown hpc
  case h_19 hpc =>
    split at h
    · cases h
      exact .join hpc ‹_›
    · cases h
  case h_20 api v hpc =>
    cases h
    exact .test hpc
  case h_21 => cases h

/-- The receive calls touch the list of pullers only, before they receive. -/
theorem attachTask_eq (s : CommHandler τ) (t : τ) :
    ∃ pullers, s.attachTask t = { s with taskPullers := pullers } := by
  unfold attachTask
  split_ifs
  · exact ⟨s.taskPullers, rfl⟩
  · exact ⟨_, rfl⟩

/-- What no application thread writes: the comm thread and its maps, `errcode`, the constructor, the
ROUTER and SUB sockets, and what has been pushed so far. -/
structure AppFrame (s s' : CommHandler τ) : Prop where
  errcode : s'.errcode = s.errcode
  ctor : s'.ctor = s.ctor
  pc : s'.pc = s.pc
  clientmap : s'.clientmap = s.clientmap
  publishermap : s'.publishermap = s.publishermap
  routerIn : s'.routerIn = s.routerIn
  routerOut : s'.routerOut = s.routerOut
  peers : s'.peers = s.peers
  routerConns : s'.routerConns = s.routerConns
  subSock : s'.subSock = s.subSock
  subGroups : s'.subGroups = s.subGroups
  taskLog : s'.taskLog = s.taskLog
  suberLog : s'.suberLog = s.suberLog
  clientLog : s'.clientLog = s.clientLog

theorem appFrame_of_appStep {s s' : CommHandler τ} {t : τ} {l : AppLabel}
    (h : s.appStep t l = some s') : AppFrame s s' := by
  have hrefl : AppFrame s s := by
    constructor <;> rfl
  obtain ⟨pullers, hattach⟩ := attachTask_eq s t
  cases appTrans_of_appStep h with
  | sendReq hpc =>
      rename_i r
      cases r <;> exact { hrefl with }
  | unlock hpc =>
      rename_i r
      cases r <;> exact { hrefl with }
  | recv | recvAsync | recvAsyncEmpty | recvAsyncNone =>
      rw [hattach]
      exact { hrefl with }
  | _ => exact { hrefl with }

/-- The two steps of the constructor. -/
theorem ctorStep_eq_some {s s' : CommHandler τ} {l : CtorLabel} (h : s.ctorStep l = some s') :
    (s.ctor = .waiting ∧ s.mtx = none ∧ s' = { s with mtx := some .ctor, ctor := .relocked }) ∨
    (s.ctor = .relocked ∧
      s' = { s with mtx := none, ctor := if s.errcode ≠ 0 then .threw else .returned }) := by
  cases l with
  | relock =>
      by_cases hc : s.ctor = .waiting ∧ s.mtx = none
      · simp only [ctorStep, if_pos hc, Option.some.injEq] at h
        exact .inl ⟨hc.1, hc.2, h.symm⟩
      · simp [ctorStep, hc] at h
  | unlock =>
      by_cases hc : s.ctor = .relocked
      · simp only [ctorStep, if_pos hc, Option.some.injEq] at h
        exact .inr ⟨hc, h.symm⟩
      · simp [ctorStep, hc] at h

/-- The application steps only once the constructor has returned. -/
theorem step_app_eq_some {hwm : Nat} {s s' : CommHandler τ} {t : τ} {l : AppLabel}
    (h : s.step hwm (.app t l) = some s') : s.ctor = .returned ∧ s.appStep t l = some s' := by
  simp only [step] at h
  split_ifs at h with hret
  exact ⟨hret, h⟩

end CommHandler

end CommTest.Zmq
