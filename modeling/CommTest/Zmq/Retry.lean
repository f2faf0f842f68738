import CommTest.Zmq.Subscribe

/-!
# Is a failed reply to an announcement retried?

A publisher repeats its announcement until enough replies have come in, so that a reply that was
lost can be made again. The subscriber makes one only to a publisher that is not in `publishermap`,
and enters the publisher there whatever its `send_msg` returned.

* `takesHello` and `replies` read off a step the announcement it takes and the reply it attempts,
  with the result of the send.
* `Marked` is what `publishermap` should mean: a sub_hello has been handed to `router_sock`.
  `KeepsOnFailure` asks of a failed reply that nothing changes, `TriesAgain` asks of an announcement
  that it is answered as long as no reply has gone out; `Retried` puts the three together for a run.
* `step_marks` says once what a step does to `publishermap` and to the ROUTER socket.
* `retried_iff_replySent`: a run keeps all of it if and only if no reply it attempts fails.
* `lost_reply_stays_lost`: after a failed reply there is none in the whole rest of the run.
-/

set_option linter.unusedSectionVars false

namespace CommTest.Zmq

open FairQueue Lts

variable {τ : Type} [DecidableEq τ]

namespace CommHandler

/-! ## Announcements and the replies to them -/

/-- The announcement that a step takes from the SUB socket: its publisher, and what the send of a
reply returns if the step makes one. -/
def takesHello (s : CommHandler τ) : Label τ → Option (Cliid × Bool)
  | .comm (.subSock behind junk sent) =>
      match s.subSock with
      | (_, m) :: _ =>
          if (m.data ++ behind).take commHandlerPubInit.length = commHandlerPubInit then
            some (pubId junk (cstr m.data behind), sent)
          else none
      | [] => none
  | _ => none

/-- The reply that a step attempts, with the result of its send. -/
def replies (s : CommHandler τ) (l : Label τ) : Option (Cliid × Bool) :=
  (s.takesHello l).filter fun r => s.publishermap r.1 = none

theorem replies_eq_some {s : CommHandler τ} {l : Label τ} {pid : Cliid} {sent : Bool} :
    s.replies l = some (pid, sent) ↔
      s.takesHello l = some (pid, sent) ∧ s.publishermap pid = none := by
  rw [replies, Option.filter_eq_some_iff, decide_eq_true_eq]

/-- The sub_hello to publisher `p`, as the comm thread hands it to the ROUTER socket. -/
def subHello (p : Cliid) : Cliid × Msg τ := (p, ⟨commHandlerSubInit, .comm⟩)

/-- A publisher is marked only if a sub_hello to it has been handed to the ROUTER socket. -/
def Marked (s : CommHandler τ) : Prop := ∀ p, s.publishermap p ≠ none → subHello p ∈ s.routerOut

/-- A step whose reply fails leaves `publishermap` and `sync_mtx` as they were. -/
def KeepsOnFailure (hwm : Nat) (s : CommHandler τ) (l : Label τ) : Prop :=
  ∀ s' pid, s.step hwm l = some s' → s.replies l = some (pid, false) →
    s'.publishermap = s.publishermap ∧ s'.mtx = s.mtx

/-- A step that takes an announcement of a publisher to which no sub_hello has gone out makes a
reply. -/
def TriesAgain (s : CommHandler τ) (l : Label τ) : Prop :=
  ∀ pid sent, s.takesHello l = some (pid, sent) → subHello pid ∉ s.routerOut →
    s.replies l = some (pid, sent)

/-- The whole law along a run from `s`. -/
structure Retried (hwm : Nat) (s : CommHandler τ) (ls : List (Label τ)) : Prop where
  marked : ∀ pre m, pre <+: ls → exec (step hwm) s pre = some m → m.Marked
  kept : Meets (step hwm) (KeepsOnFailure hwm) s ls
  tried : Meets (step hwm) TriesAgain s ls

/-- The reply that a step attempts, if it attempts one, is sent. -/
def ReplySent (s : CommHandler τ) (l : Label τ) : Prop := ∀ r ∈ s.replies l, r.2 = true

instance (s : CommHandler τ) (l : Label τ) : Decidable (s.ReplySent l) :=
  match h : s.replies l with
  | none => isTrue (by simp [ReplySent, h])
  | some r => decidable_of_iff (r.2 = true) (by simp [ReplySent, h])

/-! ## What one step does -/

/-- The messages queued by the application are its own, and a sub_hello that has gone out went to a
publisher that is marked. -/
structure Answered (s : CommHandler τ) : Prop where
  queue : ∀ e ∈ s.msgq, e.2.2.origin ≠ .comm
  out : ∀ p, subHello p ∈ s.routerOut → s.publishermap p ≠ none

/-- What a step does to `publishermap` and to the ROUTER socket: it attempts a reply and marks the
publisher, or it marks nobody and no sub_hello goes out. -/
inductive Marks (s : CommHandler τ) (l : Label τ) (s' : CommHandler τ) : Prop
  | reply {pid : Cliid} {sent : Bool} (hr : s.replies l = some (pid, sent))
      (hmap : s'.publishermap = Function.update s.publishermap pid (some true))
      (hout : s'.routerOut = s.routerOut ++ subReply sent pid)
  | other (hr : s.replies l = none) (hmap : s'.publishermap = s.publishermap)
      (hkeep : s.routerOut ⊆ s'.routerOut)
      (hnew : ∀ p, subHello p ∈ s'.routerOut → subHello p ∈ s.routerOut)

/-- A step that leaves the two alone, and is not one of the SUB socket. -/
theorem Marks.of_eq {s s' : CommHandler τ} {l : Label τ} (hr : s.replies l = none)
    (hmap : s'.publishermap = s.publishermap) (hout : s'.routerOut = s.routerOut) :
    Marks s l s' := by
  refine .other hr hmap ?_ ?_
  · rw [hout]
    exact List.Subset.refl _
  · intro p hp
    rwa [hout] at hp

/-- A step that sends something else over the ROUTER socket. -/
theorem Marks.of_send {s s' : CommHandler τ} {l : Label τ} {c : Cliid} {m : Msg τ}
    (hr : s.replies l = none) (hmap : s'.publishermap = s.publishermap)
    (hout : s'.routerOut = s.routerOut ++ [(c, m)])
    (hm : m ≠ ⟨commHandlerSubInit, .comm⟩) : Marks s l s' := by
  refine .other hr hmap ?_ ?_
  · rw [hout]
    exact List.subset_append_left _ _
  · intro p hp
    rw [hout] at hp
    rcases List.mem_append.mp hp with hp | hp
    · exact hp
    · exact absurd (congrArg Prod.snd (List.mem_singleton.mp hp)).symm hm

theorem commStep_marks {hwm : Nat} {s s' : CommHandler τ} {l : CommLabel τ}
    (hs : s.Answered) (h : s.commStep hwm l = some s') : Marks s (.comm l) s' := by
  cases commTrans_of_commStep h with
  | msgqSent hpc hpop hpeer =>
      refine .of_send rfl rfl rfl fun hm => ?_
      exact hs.queue _ (mem_of_pop hpop) (congrArg Msg.origin hm)
  | hello hpc hpeer =>
      refine .of_send rfl rfl rfl fun hm => ?_
      exact commHandlerInit_ne_commHandlerSubInit (congrArg Msg.data hm)
  | subSockNew hpc hq hpub hpid hmap hpeer =>
      subst hpid
      refine .reply (replies_eq_some.mpr ⟨?_, hmap⟩) rfl rfl
      simp only [takesHello, hq, if_pos hpub]
  | subSockOld hpc hq hpub hmap =>
      refine .of_eq ?_ rfl rfl
      simp only [replies, takesHello, hq, if_pos hpub, Option.filter_eq_none_iff]
      intro r hr
      cases hr
      simpa using hmap
  | subSockTask hpc hq hpub =>
      refine .of_eq ?_ rfl rfl
      simp only [replies, takesHello, hq, if_neg hpub, Option.filter_none]
  | _ => exact .of_eq rfl rfl rfl

/-- **What a step does to `publishermap` and to the ROUTER socket.** -/
theorem step_marks {hwm : Nat} {s s' : CommHandler τ} {l : Label τ} (hs : s.Answered)
    (h : s.step hwm l = some s') : Marks s l s' := by
  cases l with
  | comm l => exact commStep_marks hs h
  | app t l =>
      have hf := appFrame_of_appStep (step_app_eq_some h).2
      exact .of_eq rfl hf.publishermap hf.routerOut
  | ctor l =>
      rcases ctorStep_eq_some h with ⟨-, -, rfl⟩ | ⟨-, rfl⟩ <;> exact .of_eq rfl rfl rfl
  | env l =>
      cases h
      cases l <;> exact .of_eq rfl rfl rfl

/-- The queue of `send` holds what the application passed to it. -/
theorem step_queue {hwm : Nat} {s s' : CommHandler τ} {l : Label τ}
    (hs : ∀ e ∈ s.msgq, e.2.2.origin ≠ .comm) (h : s.step hwm l = some s') :
    ∀ e ∈ s'.msgq, e.2.2.origin ≠ .comm := by
  cases l with
  | comm l =>
      cases commTrans_of_commStep h with
      | msgqSent hpc hpop | msgqLost hpc hpop => exact fun e he => hs e (mem_of_mem_pop hpop he)
      | _ => exact hs
  | app t l =>
      obtain ⟨pullers, hattach⟩ := attachTask_eq s t
      cases appTrans_of_appStep (step_app_eq_some h).2 with
      | send hpc herr =>
          intro e he
          rcases List.mem_append.mp he with he | he
          · exact hs e he
          · rw [List.mem_singleton.mp he]
            exact nofun
      | sendReq hpc | unlock hpc =>
          rename_i r
          cases r <;> exact hs
      | recv | recvAsync | recvAsyncEmpty | recvAsyncNone =>
          rw [hattach]
          exact hs
      | _ => exact hs
  | ctor l => rcases ctorStep_eq_some h with ⟨-, -, rfl⟩ | ⟨-, rfl⟩ <;> exact hs
  | env l =>
      cases h
      cases l <;> exact hs

theorem Answered.step {hwm : Nat} (s : CommHandler τ) (l : Label τ) (s' : CommHandler τ)
    (hs : s.Answered) (h : s.step hwm l = some s') : s'.Answered := by
  refine ⟨step_queue hs.queue h, fun p hp => ?_⟩
  cases step_marks hs h with
  | reply hr hmap hout =>
      rename_i pid sent
      rw [hmap]
      by_cases hpid : p = pid
      · simp [hpid]
      · rw [Function.update_of_ne hpid]
        rw [hout] at hp
        rcases List.mem_append.mp hp with hp | hp
        · exact hs.out p hp
        · cases sent with
          | false => cases hp
          | true => exact absurd (congrArg Prod.fst (List.mem_singleton.mp hp)) hpid
  | other hr hmap hkeep hnew =>
      rw [hmap]
      exact hs.out p (hnew p hp)

theorem Answered.init (id : Cliid) (acceptConns : Bool) :
    (CommHandler.init τ id acceptConns).Answered :=
  ⟨fun _ he => absurd he (List.not_mem_nil), fun _ hp => absurd hp (List.not_mem_nil)⟩

/-! ## Whole runs -/

/-- A step keeps the meaning of `publishermap` exactly when the reply it attempts is sent. -/
theorem marked_step_iff {hwm : Nat} (s : CommHandler τ) (l : Label τ) (s' : CommHandler τ)
    (hs : s.Answered) (hm : s.Marked) (h : s.step hwm l = some s') :
    s'.Marked ↔ s.ReplySent l := by
  cases step_marks hs h with
  | reply hr hmap hout =>
      rename_i pid sent
      have hnew : s.publishermap pid = none := (replies_eq_some.mp hr).2
      constructor
      · intro hm' r hmem
        rw [hr, Option.mem_some_iff] at hmem
        subst hmem
        have hpid := hm' pid (by rw [hmap, Function.update_self]; exact Option.some_ne_none _)
        rw [hout] at hpid
        rcases List.mem_append.mp hpid with hpid | hpid
        · exact absurd hnew (hs.out pid hpid)
        · cases sent with
          | false => cases hpid
          | true => rfl
      · intro hsent p hp
        have hsent : sent = true := hsent _ hr
        rw [hout, hsent]
        by_cases hpid : p = pid
        · exact List.mem_append_right _ (List.mem_singleton.mpr (by rw [hpid]; rfl))
        · rw [hmap, Function.update_of_ne hpid] at hp
          exact List.mem_append_left _ (hm p hp)
  | other hr hmap hkeep hnew =>
      refine iff_of_true ?_ ?_
      · intro p hp
        rw [hmap] at hp
        exact hkeep (hm p hp)
      · intro r hmem
        rw [hr] at hmem
        cases hmem

/-- A failed reply marks its publisher, which was not marked. -/
theorem keepsOnFailure_iff {hwm : Nat} (s : CommHandler τ) (l : Label τ) (s' : CommHandler τ)
    (hs : s.Answered) (h : s.step hwm l = some s') :
    s.KeepsOnFailure hwm l ↔ s.ReplySent l := by
  constructor
  · intro hkeep r hmem
    obtain ⟨pid, sent⟩ := r
    cases sent with
    | true => rfl
    | false =>
        have hsame := (hkeep s' pid h hmem).1
        cases step_marks hs h with
        | reply hr hmap hout =>
            rw [hr, Option.mem_some_iff] at hmem
            cases hmem
            have hpid := congrFun (hmap.symm.trans hsame) pid
            rw [Function.update_self, (replies_eq_some.mp hr).2] at hpid
            cases hpid
        | other hr =>
            rw [hr] at hmem
            cases hmem
  · intro hsent s'' pid _ hr
    exact absurd (hsent _ hr) Bool.false_ne_true

theorem Marked.triesAgain {s : CommHandler τ} (hm : s.Marked) (l : Label τ) : s.TriesAgain l := by
  intro pid sent htake hout
  refine replies_eq_some.mpr ⟨htake, ?_⟩
  by_contra hp
  exact hout (hm pid hp)

/-- **A failed reply is retried in exactly the runs in which no reply fails**: for any sequence of
announcements of any publishers, any calls and any results of the sends, all the states of a run
have only answered publishers in `publishermap`, every failed reply leaves `publishermap` and
`sync_mtx` alone and every announcement without an answer is tried again, if and only if every reply
that the run attempts is sent. -/
theorem retried_iff_replySent (hwm : Nat) (id : Cliid) (acceptConns : Bool) (ls : List (Label τ))
    (s : CommHandler τ) (hrun : exec (step hwm) (init τ id acceptConns) ls = some s) :
    Retried hwm (init τ id acceptConns) ls ↔
      Meets (step hwm) ReplySent (init τ id acceptConns) ls := by
  have hinit := Answered.init (τ := τ) id acceptConns
  have hmarked : (init τ id acceptConns).Marked := fun p hp => absurd rfl hp
  have hstep : ∀ (s : CommHandler τ) l t, s.Answered → s.step hwm l = some t → t.Answered :=
    Answered.step
  have halways := always_iff_meets hstep marked_step_iff hinit hmarked hrun
  have hboth : ∀ (s : CommHandler τ) l t, s.Answered ∧ s.Marked → s.ReplySent l →
      s.step hwm l = some t → t.Answered ∧ t.Marked := by
    intro s l t hi hsent h
    exact ⟨hi.1.step s l t h, (marked_step_iff s l t hi.1 hi.2 h).mpr hsent⟩
  refine ⟨fun h => halways.mp h.marked, fun hok => ⟨halways.mpr hok, ?_, ?_⟩⟩
  · refine Meets.of_invariant hboth ?_ ⟨hinit, hmarked⟩ hrun hok
    exact fun s l t hi hsent h => (keepsOnFailure_iff s l t hi.1 h).mpr hsent
  · refine Meets.of_invariant hboth ?_ ⟨hinit, hmarked⟩ hrun hok
    exact fun s l t hi _ _ => hi.2.triesAgain l

/-- The subscription of group 7 with the reply to publisher 33 sent: the run keeps the law. -/
theorem retried_subscribed :
    (∃ s, exec (step 1) (init Unit 1 false) Subscriber.subscribed = some s ∧
      s.publishermap 33 = some true ∧ s.routerOut = [subHello 33]) ∧
    Retried 1 (init Unit 1 false) Subscriber.subscribed := by
  obtain ⟨s, hrun, hs⟩ := exists_exec (step 1) (init Unit 1 false) Subscriber.subscribed
    (fun s => s.publishermap 33 = some true ∧ s.routerOut = [subHello 33]) (by decide)
  refine ⟨⟨s, hrun, of_decide_eq_true hs⟩, ?_⟩
  exact (retried_iff_replySent 1 1 false _ s hrun).mpr (by decide)

/-- The same subscription with the announcement ahead of the unicast connection: the reply to
publisher 33 fails, and once the connection is there a second announcement comes in. -/
def unreachable : List (Label Unit) :=
  [.comm (.startup true), .comm (.startup true), .comm (.startup true), .ctor .relock,
    .ctor .unlock, .app () (.subscribeTo [104] [49] [7]), .app () .lock, .app () (.sendReq true),
    .comm (.poll true), .comm (.sub () [0] 0 none), .env (.subArrive 7 ⟨pubHello 33, .comm⟩),
    .comm (.poll true), .comm (.subSock [] 0 false), .env (.peerUp 33),
    .env (.subArrive 7 ⟨pubHello 33, .comm⟩), .comm (.poll true), .comm (.subSock [] 0 true)]

/-- The publisher is marked, the mutex is free and nothing has been sent to it, also after the
second announcement. -/
theorem not_retried_unreachable :
    (∃ s, exec (step 1) (init Unit 1 false) unreachable = some s ∧
      s.publishermap 33 = some true ∧ s.mtx = none ∧ s.routerOut = []) ∧
    ¬ Retried 1 (init Unit 1 false) unreachable := by
  obtain ⟨s, hrun, hs⟩ := exists_exec (step 1) (init Unit 1 false) unreachable
    (fun s => s.publishermap 33 = some true ∧ s.mtx = none ∧ s.routerOut = []) (by decide)
  have hs := of_decide_eq_true hs
  refine ⟨⟨s, hrun, hs⟩, fun hlaw => ?_⟩
  have hout := hlaw.marked unreachable s List.prefix_rfl hrun 33 (by rw [hs.1]; decide)
  rw [hs.2.2] at hout
  cases hout

/-! ## After a failed reply -/

/-- Publisher `p` is marked and no sub_hello to it has gone out. -/
def Lost (p : Cliid) (s : CommHandler τ) : Prop :=
  s.Answered ∧ s.publishermap p ≠ none ∧ subHello p ∉ s.routerOut

theorem Lost.step {hwm : Nat} {p : Cliid} (s : CommHandler τ) (l : Label τ) (s' : CommHandler τ)
    (hs : s.Lost p) (h : s.step hwm l = some s') : s'.Lost p := by
  obtain ⟨hans, hmark, hout⟩ := hs
  refine ⟨hans.step s l s' h, ?_⟩
  cases step_marks hans h with
  | reply hr hmap hrouter =>
      rename_i pid sent
      have hpid : p ≠ pid := fun heq => hmark (heq ▸ (replies_eq_some.mp hr).2)
      rw [hmap, hrouter, Function.update_of_ne hpid]
      refine ⟨hmark, fun hmem => ?_⟩
      rcases List.mem_append.mp hmem with hmem | hmem
      · exact hout hmem
      · cases sent with
        | false => cases hmem
        | true => exact hpid (congrArg Prod.fst (List.mem_singleton.mp hmem))
  | other hr hmap hkeep hnew =>
      rw [hmap]
      exact ⟨hmark, fun hmem => hout (hnew p hmem)⟩

/-- **A reply that failed is never made good**: in every continuation of a run, whatever is
announced and whatever the sends return, no sub_hello goes out to that publisher. -/
theorem lost_reply_stays_lost (hwm : Nat) (id : Cliid) (acceptConns : Bool)
    (ls ms : List (Label τ)) (l : Label τ) (s s' t : CommHandler τ) (p : Cliid)
    (hrun : exec (step hwm) (init τ id acceptConns) ls = some s)
    (hfail : s.replies l = some (p, false)) (hstep : s.step hwm l = some s')
    (hrest : exec (step hwm) s' ms = some t) : subHello p ∉ t.routerOut := by
  have hans : s.Answered := exec_invariant Answered.step (Answered.init id acceptConns) hrun
  have hnew : s.publishermap p = none := (replies_eq_some.mp hfail).2
  have hlost : s'.Lost p := by
    refine ⟨hans.step s l s' hstep, ?_⟩
    cases step_marks hans hstep with
    | reply hr hmap hout =>
        rw [hfail] at hr
        cases hr
        rw [hmap, hout, Function.update_self]
        refine ⟨Option.some_ne_none _, fun hmem => ?_⟩
        exact hans.out p (by simpa [subReply] using hmem) hnew
    | other hr =>
        rw [hfail] at hr
        cases hr
  exact (exec_invariant Lost.step hlost hrest).2.2

end CommHandler

end CommTest.Zmq
