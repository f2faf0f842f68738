import CommTest.Zmq.Transitions
import Mathlib.Data.List.Infix
import Mathlib.Data.Fintype.Basic

/-!
# `shutdown` and the messages that wait in `msgq`

One iteration of the poll loop takes at most one message from `msgq` and looks at the shutdown
socket last. A message that `send` accepted before `shutdown` was called is lost when it is still in
`msgq` behind another one in the iteration whose poll saw the shutdown message.

* `Accounts` is the bookkeeping of `send`: what a thread passed to it is what it got an answer for,
  and it is what the comm thread has handed to `router_sock` followed by what waits in `msgq`.
* `TakesLast` is the condition on a step: when the iteration is the last one, the message taken from
  `msgq` is the only one still owed.
* `forwardsAccepted_iff_takesLast`: a run that ends with the shutdown message has handed over
  everything accepted before the call if and only if all its steps meet that condition.
-/

set_option linter.unusedSectionVars false

namespace CommTest.Zmq

open FairQueue Lts

variable {τ : Type} [DecidableEq τ]

/-- The blocks of this iteration that are still to be served. -/
def CommPc.todo : CommPc τ → List Block
  | .blocks rest | .hello _ _ rest | .pushTask _ _ rest | .pushSuber _ _ rest => rest
  | .startup _ | .spinning | .aborted | .exited _ => []

/-- The comm thread serves nothing any more. -/
def CommPc.gone : CommPc τ → Bool
  | .spinning | .aborted | .exited _ => true
  | _ => false

/-- The `send` calls of `t` that returned the length of their message: destination and payload. -/
def acceptedSends (t : τ) (rets : List (τ × Api × Int)) : List (Cliid × Bytes) :=
  rets.filterMap fun
    | (t', .send cid data, v) => if t' = t ∧ v = data.length then some (ide2i cid, data) else none
    | _ => none

/-- Destination and payload of the messages of `t` in a queue or a log. -/
def payloads (t : τ) (q : List (τ × Cliid × Msg τ)) : List (Cliid × Bytes) :=
  (pipe t q).map fun e => (e.1, e.2.data)

/-- The payload of a `send` that is pushed but has not returned. -/
def AppPc.inCall : AppPc → List (Cliid × Bytes)
  | .testing (.send cid data) _ => [(ide2i cid, data)]
  | _ => []

namespace CommHandler

/-- The bookkeeping of `send`. -/
structure Accounts (s : CommHandler τ) : Prop where
  forwarded : ∀ t, payloads t s.sendLog = payloads t s.routerLog ++ payloads t s.msgq
  answered : s.errcode = 0 → ∀ t,
    payloads t s.sendLog = acceptedSends t s.rets ++ (s.app t).inCall
  accepted : ∀ t, acceptedSends t s.rets <+: payloads t s.sendLog
  length : ∀ t cid data v, s.app t = .testing (.send cid data) v → v = data.length

/-- The order of an iteration: the block of `msgq` is the first one if it is still to be served, and
the shutdown block is only there, or taken, when a shutdown message was sent. -/
structure Iterates (s : CommHandler τ) : Prop where
  order : s.pc.todo.Sublist blockOrder
  first : .msgq ∈ s.pc.todo → ∃ rest, s.pc = .blocks (.msgq :: rest)
  called : .shutdown ∈ s.pc.todo ∨ s.pc = .exited .shutdown → s.shutdownSock ≠ 0

/-- Every message that the comm thread takes from `msgq` is accepted by `router_sock`. -/
def RouterAccepts : CommHandler τ → Label τ → Prop
  | _, .comm (.msgq _ false) => False
  | _, _ => True

/-- What was accepted (`accepted t` for thread `t`) has been handed to `router_sock`. -/
def ForwardsAccepted (accepted : τ → List (Cliid × Bytes)) (s : CommHandler τ) : Prop :=
  ∀ t, accepted t <+: payloads t s.routerLog

/-- The thread whose message a step takes from `msgq`. -/
def takesFrom : Label τ → Option τ
  | .comm (.msgq t _) => some t
  | _ => none

/-- When the comm thread takes a message of `t` from `msgq` in an iteration whose poll saw the
shutdown message, at most one of the accepted messages still waits, and it is the one taken. -/
def TakesLast (accepted : τ → List (Cliid × Bytes)) (s : CommHandler τ) (l : Label τ) : Prop :=
  ∀ t ∈ takesFrom l, .shutdown ∈ s.pc.todo →
    ∀ t', (accepted t').length ≤ (payloads t' s.routerLog).length + if t' = t then 1 else 0

instance [Fintype τ] (accepted : τ → List (Cliid × Bytes)) (s : CommHandler τ) (l : Label τ) :
    Decidable (s.TakesLast accepted l) :=
  inferInstanceAs (Decidable (∀ t ∈ takesFrom l, .shutdown ∈ s.pc.todo →
    ∀ t', (accepted t').length ≤ (payloads t' s.routerLog).length + if t' = t then 1 else 0))

/-! ## Bookkeeping -/

theorem payloads_append (t : τ) (q r : List (τ × Cliid × Msg τ)) :
    payloads t (q ++ r) = payloads t q ++ payloads t r := by
  simp [payloads]

theorem payloads_singleton (t u : τ) (cid : Cliid) (m : Msg τ) :
    payloads t [(u, cid, m)] = if u = t then [(cid, m.data)] else [] := by
  by_cases h : u = t <;> simp [payloads, h]

theorem acceptedSends_append (t : τ) (r₁ r₂ : List (τ × Api × Int)) :
    acceptedSends t (r₁ ++ r₂) = acceptedSends t r₁ ++ acceptedSends t r₂ := by
  simp [acceptedSends]

/-- The comm thread leaves the records of the application alone. -/
theorem commStep_frame {hwm : Nat} {s s' : CommHandler τ} {l : CommLabel τ}
    (h : s.commStep hwm l = some s') :
    s'.sendLog = s.sendLog ∧ s'.rets = s.rets ∧ s'.app = s.app ∧
      s'.shutdownSock = s.shutdownSock := by
  cases commTrans_of_commStep h <;> exact ⟨rfl, rfl, rfl, rfl⟩

/-- Only its block touches `msgq`: it takes the oldest message of one thread and, when the router
accepts it, hands it over. -/
theorem commStep_msgq {hwm : Nat} {s s' : CommHandler τ} {l : CommLabel τ}
    (hok : s.RouterAccepts (.comm l)) (h : s.commStep hwm l = some s') :
    (s'.msgq = s.msgq ∧ s'.routerLog = s.routerLog ∧ ∀ t sent, l ≠ .msgq t sent) ∨
    ∃ t cid m q rest, l = .msgq t true ∧ s.pc = .blocks (.msgq :: rest) ∧
      pop t s.msgq = some ((cid, m), q) ∧ s'.msgq = q ∧
      s'.routerLog = s.routerLog ++ [(t, cid, m)] ∧ s'.pc = .blocks rest := by
  cases commTrans_of_commStep h with
  | msgqSent hpc hpop => exact .inr ⟨_, _, _, _, _, rfl, hpc, hpop, rfl, rfl, rfl⟩
  | msgqLost => exact hok.elim
  | _ => exact .inl ⟨rfl, rfl, by simp⟩

/-- A returned value other than an accepted `send`. -/
theorem acceptedSends_reject (t u : τ) (api : Api) : acceptedSends u [(t, api, -1)] = [] := by
  cases api with
  | send cid data =>
      have hlen : ¬ (-1 : Int) = data.length := by omega
      simp [acceptedSends, hlen]
  | _ => rfl

/-- What a step of an application thread does to the records: it pushes a message, returns from a
`send`, or does something else that is not a `send`. -/
theorem appStep_sends {s s' : CommHandler τ} {t : τ} {l : AppLabel} (h : s.appStep t l = some s') :
    s'.errcode = s.errcode ∧ s'.routerLog = s.routerLog ∧
    ((∃ cid data, s.app t = .idle ∧ s'.rets = s.rets ∧
        s'.msgq = s.msgq ++ [(t, ide2i cid, Msg.mk data (.send t))] ∧
        s'.sendLog = s.sendLog ++ [(t, ide2i cid, Msg.mk data (.send t))] ∧
        s'.app = Function.update s.app t (.testing (.send cid data) data.length)) ∨
    (s'.msgq = s.msgq ∧ s'.sendLog = s.sendLog ∧
      ((∃ api v, s.app t = .testing api v ∧ s'.app = Function.update s.app t .idle ∧
          s'.rets = s.rets ++ [(t, api, if s.errcode ≠ 0 then -1 else v)]) ∨
       (∃ pc, (s.app t).inCall = [] ∧ s'.app = Function.update s.app t pc ∧
          (∀ cid data v, pc ≠ .testing (.send cid data) v) ∧
          ∃ r, s'.rets = s.rets ++ r ∧ ∀ u, acceptedSends u r = [])))) := by
  obtain ⟨pullers, hattach⟩ := attachTask_eq s t
  cases appTrans_of_appStep h with
  | send hpc => exact ⟨rfl, rfl, .inl ⟨_, _, hpc, rfl, rfl, rfl, rfl⟩⟩
  | test hpc => exact ⟨rfl, rfl, .inr ⟨rfl, rfl, .inl ⟨_, _, hpc, rfl, rfl⟩⟩⟩
  | reject hpc | sendReqFail hpc | announcedFail hpc =>
      refine ⟨rfl, rfl, .inr ⟨rfl, rfl, .inr ⟨.idle, by simp [hpc, AppPc.inCall], rfl, by simp, _, rfl, ?_⟩⟩⟩
      exact fun u => acceptedSends_reject t u _
  | recvAsyncEmpty hpc | recvAsyncNone hpc =>
      rw [hattach]
      exact ⟨rfl, rfl, .inr ⟨rfl, rfl, .inr ⟨.idle, by simp [hpc, AppPc.inCall], rfl, by simp, _, rfl,
        fun _ => rfl⟩⟩⟩
  | announceEnd hpc | pop hpc | join hpc =>
      exact ⟨rfl, rfl, .inr ⟨rfl, rfl, .inr ⟨.idle, by simp [hpc, AppPc.inCall], rfl, by simp, _, rfl,
        fun _ => rfl⟩⟩⟩
  | sendReq hpc =>
      rename_i r
      refine ⟨?_, ?_, .inr ⟨?_, ?_, .inr ⟨.waiting r, by simp [hpc, AppPc.inCall], ?_, by simp, [], ?_,
        fun _ => rfl⟩⟩⟩ <;> cases r <;> simp [enqueue, goto]
  | unlock hpc =>
      rename_i r
      cases r with
      | pubStart text gid numSubs =>
          exact ⟨rfl, rfl, .inr ⟨rfl, rfl, .inr ⟨_, by simp [hpc, AppPc.inCall], rfl, by simp, [],
            by simp [finish, startAnnounce, goto], fun _ => rfl⟩⟩⟩
      | connect | subscribe =>
          exact ⟨rfl, rfl, .inr ⟨rfl, rfl, .inr ⟨_, by simp [hpc, AppPc.inCall], rfl,
            by simp [Request.api], [], by simp [finish, goto], fun _ => rfl⟩⟩⟩
  | recv hpc | recvAsync hpc =>
      rw [hattach]
      exact ⟨rfl, rfl, .inr ⟨rfl, rfl, .inr ⟨_, by simp [hpc, AppPc.inCall], rfl, by simp, [],
        by simp [goto], fun _ => rfl⟩⟩⟩
  | call hpc | announceStart hpc | lock hpc | relock hpc | announce hpc | announced hpc | drain hpc
  | drainEmpty hpc | drainEnd hpc | publish hpc | recvDone hpc | getOneConnection hpc
  | shutdown hpc =>
      exact ⟨rfl, rfl, .inr ⟨rfl, rfl, .inr ⟨_, by simp [hpc, AppPc.inCall], rfl, by simp, [],
        by simp [goto, startAnnounce], fun _ => rfl⟩⟩⟩

/-- The effect of a `send` up to its last test of `errcode`. -/
theorem accounts_send {s s' : CommHandler τ} {t : τ} {cid : Cliid} {data : Bytes} (hs : s.Accounts)
    (herr : s'.errcode = s.errcode) (hlog : s'.routerLog = s.routerLog) (hpc : s.app t = .idle)
    (hrets : s'.rets = s.rets)
    (hmsgq : s'.msgq = s.msgq ++ [(t, ide2i cid, Msg.mk data (.send t))])
    (hsend : s'.sendLog = s.sendLog ++ [(t, ide2i cid, Msg.mk data (.send t))])
    (happ : s'.app = Function.update s.app t (.testing (.send cid data) data.length)) :
    s'.Accounts := by
  refine ⟨?_, ?_, ?_, ?_⟩
  · intro u
    rw [hsend, hlog, hmsgq, payloads_append, payloads_append, hs.forwarded u, List.append_assoc]
  · intro he u
    rw [hsend, hrets, happ, payloads_append, hs.answered (herr ▸ he) u, payloads_singleton]
    by_cases hu : u = t
    · subst hu
      simp [hpc, AppPc.inCall]
    · simp [hu, Ne.symm hu]
  · intro u
    rw [hsend, hrets, payloads_append]
    exact (hs.accepted u).trans (List.prefix_append _ _)
  · intro u cid' data' v hu
    rw [happ] at hu
    by_cases hut : u = t
    · subst hut
      simp only [Function.update_self, AppPc.testing.injEq, Api.send.injEq] at hu
      obtain ⟨⟨-, rfl⟩, rfl⟩ := hu
      rfl
    · rw [Function.update_of_ne hut] at hu
      exact hs.length u cid' data' v hu

/-- The effect of a return after the last test of `errcode`. -/
theorem accounts_test {s s' : CommHandler τ} {t : τ} {api : Api} {v : Int} (hs : s.Accounts)
    (herr : s'.errcode = s.errcode) (hlog : s'.routerLog = s.routerLog) (hmsgq : s'.msgq = s.msgq)
    (hsend : s'.sendLog = s.sendLog) (hpc : s.app t = .testing api v)
    (happ : s'.app = Function.update s.app t .idle)
    (hrets : s'.rets = s.rets ++ [(t, api, if s.errcode ≠ 0 then -1 else v)]) : s'.Accounts := by
  have hanswered : s'.errcode = 0 → ∀ u,
      payloads u s'.sendLog = acceptedSends u s'.rets ++ (s'.app u).inCall := by
    intro he u
    have he : s.errcode = 0 := herr ▸ he
    rw [hsend, hrets, happ, acceptedSends_append, hs.answered he u]
    by_cases hu : u = t
    · subst hu
      simp only [hpc, he, ne_eq, not_true, if_false, Function.update_self, List.append_assoc,
        List.append_cancel_left_eq]
      cases api with
      | send cid data =>
          have hv := hs.length u cid data v hpc
          simp [acceptedSends, AppPc.inCall, hv]
      | _ => rfl
    · have hother : acceptedSends u [(t, api, if s.errcode ≠ 0 then -1 else v)] = [] := by
        cases api <;> simp [acceptedSends, Ne.symm hu]
      rw [hother, List.append_nil, Function.update_of_ne hu]
  refine ⟨?_, hanswered, ?_, ?_⟩
  · intro u
    rw [hsend, hlog, hmsgq, hs.forwarded u]
  · intro u
    by_cases he : s.errcode = 0
    · rw [hanswered (herr ▸ he) u]
      exact List.prefix_append _ _
    · rw [hsend, hrets, if_pos he, acceptedSends_append, acceptedSends_reject, List.append_nil]
      exact hs.accepted u
  · intro u cid' data' v' hu
    rw [happ] at hu
    by_cases hut : u = t
    · subst hut
      simp at hu
    · rw [Function.update_of_ne hut] at hu
      exact hs.length u cid' data' v' hu

/-- The effect of every other step of an application thread. -/
theorem accounts_other {s s' : CommHandler τ} {t : τ} {pc : AppPc} {r : List (τ × Api × Int)}
    (hs : s.Accounts) (herr : s'.errcode = s.errcode) (hlog : s'.routerLog = s.routerLog)
    (hmsgq : s'.msgq = s.msgq) (hsend : s'.sendLog = s.sendLog) (hpc : (s.app t).inCall = [])
    (happ : s'.app = Function.update s.app t pc) (hne : ∀ cid data v, pc ≠ .testing (.send cid data) v)
    (hrets : s'.rets = s.rets ++ r) (hr : ∀ u, acceptedSends u r = []) : s'.Accounts := by
  refine ⟨?_, ?_, ?_, ?_⟩
  · intro u
    rw [hsend, hlog, hmsgq, hs.forwarded u]
  · intro he u
    rw [hsend, hrets, happ, acceptedSends_append, hr u, List.append_nil, hs.answered (herr ▸ he) u]
    by_cases hu : u = t
    · subst hu
      have hnil : pc.inCall = [] := by
        unfold AppPc.inCall
        split
        · rename_i cid data v
          exact absurd rfl (hne cid data v)
        · rfl
      rw [Function.update_self, hpc, hnil]
    · rw [Function.update_of_ne hu]
  · intro u
    rw [hsend, hrets, acceptedSends_append, hr u, List.append_nil]
    exact hs.accepted u
  · intro u cid' data' v' hu
    rw [happ] at hu
    by_cases hut : u = t
    · subst hut
      rw [Function.update_self] at hu
      exact absurd hu (hne _ _ _)
    · rw [Function.update_of_ne hut] at hu
      exact hs.length u cid' data' v' hu

theorem accounts_appStep {s s' : CommHandler τ} {t : τ} {l : AppLabel} (hs : s.Accounts)
    (h : s.appStep t l = some s') : s'.Accounts := by
  obtain ⟨herr, hlog, h⟩ := appStep_sends h
  rcases h with ⟨cid, data, hpc, hrets, hmsgq, hsend, happ⟩ | ⟨hmsgq, hsend, h⟩
  · exact accounts_send hs herr hlog hpc hrets hmsgq hsend happ
  rcases h with ⟨api, v, hpc, happ, hrets⟩ | ⟨pc, hpc, happ, hne, r, hrets, hr⟩
  · exact accounts_test hs herr hlog hmsgq hsend hpc happ hrets
  · exact accounts_other hs herr hlog hmsgq hsend hpc happ hne hrets hr

/-- The comm thread never clears `errcode`. -/
theorem commStep_errcode {hwm : Nat} {s s' : CommHandler τ} {l : CommLabel τ}
    (h : s.commStep hwm l = some s') : s'.errcode = s.errcode ∨ s'.errcode = 1 := by
  cases commTrans_of_commStep h with
  | startupFail | pollFail | recvFail | recvFailConn | monitorFail | connFail | pubSendFail
  | subConnFail | subSetFail | pubStartFail => exact .inr rfl
  | _ => exact .inl rfl

theorem accounts_step {hwm : Nat} (s : CommHandler τ) (l : Label τ) (s' : CommHandler τ)
    (hs : s.Accounts) (hok : s.RouterAccepts l) (h : s.step hwm l = some s') : s'.Accounts := by
  cases l with
  | comm l =>
      obtain ⟨hsend, hrets, happ, -⟩ := commStep_frame h
      refine ⟨?_, ?_, ?_, ?_⟩
      · intro t
        rw [hsend, hs.forwarded t]
        rcases commStep_msgq hok h with ⟨hmsgq, hlog, -⟩ | ⟨u, cid, m, q, rest, -, -, hpop, hmsgq, hlog, -⟩
        · rw [hmsgq, hlog]
        · rw [hmsgq, hlog, payloads_append, payloads_singleton, List.append_assoc]
          by_cases ht : u = t
          · subst ht
            simp [payloads, pop_pipe hpop]
          · simp [payloads, ht, pop_pipe_ne (Ne.symm ht) hpop]
      · intro he t
        rw [hsend, hrets, happ]
        refine hs.answered ?_ t
        rcases commStep_errcode h with herr | herr
        · exact herr ▸ he
        · rw [herr] at he
          cases he
      · intro t
        rw [hsend, hrets]
        exact hs.accepted t
      · intro t cid data v ht
        rw [happ] at ht
        exact hs.length t cid data v ht
  | app t l => exact accounts_appStep hs (step_app_eq_some h).2
  | ctor l =>
      rcases ctorStep_eq_some h with ⟨_, _, rfl⟩ | ⟨_, rfl⟩ <;>
        exact ⟨hs.forwarded, hs.answered, hs.accepted, hs.length⟩
  | env l =>
      cases h
      cases l <;> exact ⟨hs.forwarded, hs.answered, hs.accepted, hs.length⟩

/-! ## The shape of an iteration -/

theorem msgq_notMem_of_sublist {b : Block} {rest : List Block}
    (h : (b :: rest).Sublist blockOrder) : .msgq ∉ rest := by
  intro hmem
  have htail : rest.Sublist blockOrder.tail := h.tail
  have hbad : Block.msgq ∈ blockOrder.tail := htail.subset hmem
  revert hbad
  decide

/-- How a step of the comm thread moves through an iteration: it polls, goes on to the next block,
stays in its block, takes the shutdown block, or the thread is gone (or hangs) for another reason.
-/
inductive Advance (s : CommHandler τ) (l : CommLabel τ) (s' : CommHandler τ) : Prop
  | poll (hpc : s.pc = .blocks []) (hpc' : s'.pc = .blocks (blockOrder.filter s.ready))
  | next {b} (hpc : s.pc = .blocks (b :: s'.pc.todo)) (hb : b ≠ .shutdown)
      (hl : b = .msgq → ∃ t sent, l = .msgq t sent) (hpc' : s'.pc ≠ .exited .shutdown)
  | stay (hpc : ∀ rest, s.pc ≠ .blocks rest) (htodo : s'.pc.todo = s.pc.todo)
      (hpc' : s'.pc ≠ .exited .shutdown)
  | shutdown {rest} (hpc : s.pc = .blocks (.shutdown :: rest)) (hpc' : s'.pc = .exited .shutdown)
  | gone (hpc' : s'.pc.gone = true) (hne : s'.pc ≠ .exited .shutdown)

theorem advance_of_commStep {hwm : Nat} {s s' : CommHandler τ} {l : CommLabel τ}
    (h : s.commStep hwm l = some s') : Advance s l s' := by
  cases commTrans_of_commStep h with
  | poll hpc => exact .poll hpc rfl
  | helloRetry hpc => exact .stay (by simp [hpc]) rfl (by simp [hpc])
  | hello hpc | pushTask hpc | pushTaskLost hpc | pushSuber hpc | pushSuberLost hpc
  | startupNext hpc | startupDone hpc =>
      exact .stay (by simp [hpc]) (by simp [hpc, CommPc.todo, unlock]) (by simp [unlock])
  | startupFail | startupSilent | pollFail | recvFail | recvFailConn | monitorFail | monitorAbort
  | connFail | pubSendFail | subConnFail | subSetFail | subSpin | pubStartFail =>
      exact .gone rfl (by simp [unlock, failed])
  | shutdown hpc => exact .shutdown hpc rfl
  | msgqSent hpc | msgqLost hpc | routerSuber hpc | routerClient hpc | routerTask hpc | monitorOk hpc
  | conn hpc | pubSend hpc | sub hpc | subSockNew hpc | subSockOld hpc | subSockTask hpc
  | pubStart hpc => exact .next hpc (by decide) (by simp) (by simp [unlock])

theorem todo_of_gone {pc : CommPc τ} (h : pc.gone = true) : pc.todo = [] := by
  cases pc <;> first | rfl | cases h

theorem iterates_init (id : Cliid) (acceptConns : Bool) : (init τ id acceptConns).Iterates where
  order := List.nil_sublist _
  first h := by cases h
  called h := by rcases h with h | h <;> cases h

theorem iterates_commStep {hwm : Nat} {s s' : CommHandler τ} {l : CommLabel τ} (hs : s.Iterates)
    (h : s.commStep hwm l = some s') : s'.Iterates := by
  have hsock : s'.shutdownSock = s.shutdownSock := (commStep_frame h).2.2.2
  cases advance_of_commStep h with
  | poll hpc hpc' =>
      refine ⟨?_, ?_, ?_⟩
      · rw [hpc']
        exact List.filter_sublist
      · intro hmem
        rw [hpc'] at hmem ⊢
        have hready : s.ready .msgq = true := (List.mem_filter.mp hmem).2
        exact ⟨blockOrder.tail.filter s.ready, by simp [blockOrder, hready]⟩
      · rintro (hmem | hex)
        · rw [hpc'] at hmem
          have hready : s.ready .shutdown = true := (List.mem_filter.mp hmem).2
          rw [hsock]
          simpa [ready] using hready
        · rw [hpc'] at hex
          cases hex
  | next hpc hb hl hpc' =>
      have horder := hs.order
      have hcalled := hs.called
      rw [hpc] at horder hcalled
      refine ⟨(List.sublist_cons_self _ _).trans horder, ?_, ?_⟩
      · exact fun hmem => absurd hmem (msgq_notMem_of_sublist horder)
      · rintro (hmem | hex)
        · rw [hsock]
          exact hcalled (.inl (List.mem_cons_of_mem _ hmem))
        · exact absurd hex hpc'
  | stay hpc htodo hpc' =>
      refine ⟨htodo ▸ hs.order, ?_, ?_⟩
      · intro hmem
        obtain ⟨rest, hrest⟩ := hs.first (htodo ▸ hmem)
        exact absurd hrest (hpc _)
      · rintro (hmem | hex)
        · rw [hsock]
          exact hs.called (.inl (htodo ▸ hmem))
        · exact absurd hex hpc'
  | shutdown hpc hpc' =>
      have hcalled : s.shutdownSock ≠ 0 := hs.called (.inl (by simp [hpc, CommPc.todo]))
      exact ⟨by simp [hpc', CommPc.todo], by simp [hpc', CommPc.todo], fun _ => hsock ▸ hcalled⟩
  | gone hpc' hne =>
      have htodo := todo_of_gone hpc'
      exact ⟨by simp [htodo], by simp [htodo], by simp [htodo, hne]⟩

/-- The application never takes a shutdown message back. -/
theorem appStep_shutdownSock {s s' : CommHandler τ} {t : τ} {l : AppLabel}
    (h : s.appStep t l = some s') :
    s'.pc = s.pc ∧ s.shutdownSock ≤ s'.shutdownSock ∧ s'.errcode = s.errcode := by
  obtain ⟨pullers, hattach⟩ := attachTask_eq s t
  cases appTrans_of_appStep h with
  | sendReq hpc =>
      rename_i r
      cases r <;> exact ⟨rfl, le_rfl, rfl⟩
  | unlock hpc =>
      rename_i r
      cases r <;> exact ⟨rfl, le_rfl, rfl⟩
  | recv | recvAsync | recvAsyncEmpty | recvAsyncNone =>
      rw [hattach]
      exact ⟨rfl, le_rfl, rfl⟩
  | shutdown => exact ⟨rfl, Nat.le_succ _, rfl⟩
  | _ => exact ⟨rfl, le_rfl, rfl⟩

theorem iterates_step {hwm : Nat} (s : CommHandler τ) (l : Label τ) (s' : CommHandler τ)
    (hs : s.Iterates) (h : s.step hwm l = some s') : s'.Iterates := by
  cases l with
  | comm l => exact iterates_commStep hs h
  | app t l =>
      obtain ⟨hpc, hsock, -⟩ := appStep_shutdownSock (step_app_eq_some h).2
      refine ⟨hpc ▸ hs.order, hpc ▸ hs.first, ?_⟩
      intro hmem
      have hne := hs.called (hpc ▸ hmem)
      omega
  | ctor l =>
      rcases ctorStep_eq_some h with ⟨_, _, rfl⟩ | ⟨_, rfl⟩ <;> exact ⟨hs.order, hs.first, hs.called⟩
  | env l =>
      cases h
      cases l <;> exact ⟨hs.order, hs.first, hs.called⟩

/-! ## The last iteration -/

/-- The iteration ends with the shutdown block, and the block of `msgq` is over. -/
def LastLap (s : CommHandler τ) : Prop := .shutdown ∈ s.pc.todo ∧ .msgq ∉ s.pc.todo

/-- What the steps that take the last message preserve: from the moment the last iteration is past
`msgq`, everything accepted has been handed over. -/
structure Delivers (accepted : τ → List (Cliid × Bytes)) (s : CommHandler τ) : Prop where
  accounts : s.Accounts
  iterates : s.Iterates
  known : ∀ t, accepted t <+: payloads t s.sendLog
  lastLap : s.LastLap ∨ s.pc = .exited .shutdown → s.ForwardsAccepted accepted

theorem delivers_commStep {hwm : Nat} {accepted : τ → List (Cliid × Bytes)} {s s' : CommHandler τ}
    {l : CommLabel τ} (hs : s.Delivers accepted) (hok : s.RouterAccepts (.comm l))
    (htake : s.TakesLast accepted (.comm l)) (h : s.commStep hwm l = some s') :
    s'.Delivers accepted := by
  have hacc' : s'.Accounts := accounts_step s (.comm l) s' hs.accounts hok h
  have hknown' : ∀ t, accepted t <+: payloads t s'.sendLog := by
    rw [(commStep_frame h).1]
    exact hs.known
  refine ⟨hacc', iterates_commStep hs.iterates h, hknown', ?_⟩
  rcases commStep_msgq hok h with ⟨hmsgq, hlog, hl⟩ | ⟨t, cid, m, q, rest, rfl, hpc, -, -, hlog, hpc'⟩
  · unfold ForwardsAccepted
    rw [hlog]
    cases advance_of_commStep h with
    | poll hpc hpc' =>
        -- `msgq` was empty when the shutdown message was seen, so nothing accepted waits in it
        rintro (⟨hsd, hno⟩ | hex)
        · intro t
          rw [hpc'] at hno
          have hready : s.ready .msgq = false := by
            by_contra hr
            exact hno (List.mem_filter.mpr ⟨by decide, by simpa using hr⟩)
          have hempty : s.msgq = [] := by simpa [ready] using hready
          have hfwd : payloads t s.sendLog = payloads t s.routerLog := by
            rw [hs.accounts.forwarded t, hempty]
            exact List.append_nil _
          exact hfwd ▸ hs.known t
        · rw [hpc'] at hex
          cases hex
    | next hpc hb hnext hpc' =>
        rintro (⟨hsd, hno⟩ | hex)
        · refine hs.lastLap (.inl ⟨?_, ?_⟩)
          · rw [hpc]
            exact List.mem_cons_of_mem _ hsd
          · rw [hpc]
            intro hmem
            rcases List.mem_cons.mp hmem with rfl | hmem
            · obtain ⟨t, sent, rfl⟩ := hnext rfl
              exact hl t sent rfl
            · exact hno hmem
        · exact absurd hex hpc'
    | stay hpc htodo hpc' =>
        rintro (⟨hsd, hno⟩ | hex)
        · exact hs.lastLap (.inl ⟨htodo ▸ hsd, htodo ▸ hno⟩)
        · exact absurd hex hpc'
    | shutdown hpc hpc' =>
        intro _
        refine hs.lastLap (.inl ⟨by simp [hpc, CommPc.todo], ?_⟩)
        intro hmem
        obtain ⟨rest, hrest⟩ := hs.iterates.first hmem
        rw [hpc] at hrest
        cases hrest
    | gone hpc' hne =>
        rintro (⟨hsd, -⟩ | hex)
        · rw [todo_of_gone hpc'] at hsd
          cases hsd
        · exact absurd hex hne
  · -- the one message still owed, if any, is the one just taken
    rintro (⟨hsd, -⟩ | hex)
    · intro u
      have hsd : .shutdown ∈ s.pc.todo := by
        rw [hpc'] at hsd
        rw [hpc]
        exact List.mem_cons_of_mem _ hsd
      have hlen := htake t rfl hsd u
      refine List.prefix_of_prefix_length_le (hknown' u) ?_ ?_
      · rw [hacc'.forwarded u]
        exact List.prefix_append _ _
      · rw [hlog, payloads_append, payloads_singleton, List.length_append]
        by_cases hu : t = u
        · subst hu
          simpa using hlen
        · simpa [hu, Ne.symm hu] using hlen
    · rw [hpc'] at hex
      cases hex

theorem delivers_step {hwm : Nat} {accepted : τ → List (Cliid × Bytes)} (s : CommHandler τ)
    (l : Label τ) (s' : CommHandler τ) (hs : s.Delivers accepted)
    (hok : s.RouterAccepts l ∧ s.TakesLast accepted l) (h : s.step hwm l = some s') :
    s'.Delivers accepted := by
  have hacc' := accounts_step s l s' hs.accounts hok.1 h
  have hit' := iterates_step s l s' hs.iterates h
  cases l with
  | comm l => exact delivers_commStep hs hok.1 hok.2 h
  | app t l =>
      have happ := (step_app_eq_some h).2
      obtain ⟨hpc, -, -⟩ := appStep_shutdownSock happ
      obtain ⟨-, hlog, hsends⟩ := appStep_sends happ
      refine ⟨hacc', hit', ?_, ?_⟩
      · intro u
        rcases hsends with ⟨cid, data, -, -, -, hsend, -⟩ | ⟨-, hsend, -⟩
        · rw [hsend, payloads_append]
          exact (hs.known u).trans (List.prefix_append _ _)
        · rw [hsend]
          exact hs.known u
      · unfold LastLap ForwardsAccepted
        rw [hpc, hlog]
        exact hs.lastLap
  | ctor l =>
      rcases ctorStep_eq_some h with ⟨_, _, rfl⟩ | ⟨_, rfl⟩ <;>
        exact ⟨hacc', hit', hs.known, hs.lastLap⟩
  | env l =>
      cases h
      cases l <;> exact ⟨hacc', hit', hs.known, hs.lastLap⟩

/-! ## The trap of a message left behind -/

theorem commStep_of_gone {hwm : Nat} {s : CommHandler τ} {l : CommLabel τ}
    (h : s.pc.gone = true) : s.commStep hwm l = none := by
  unfold commStep
  cases hpc : s.pc <;> rw [hpc] at h <;> first | rfl | cases h

end CommHandler

end CommTest.Zmq
