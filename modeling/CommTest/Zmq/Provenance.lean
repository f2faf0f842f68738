import CommTest.Zmq.Network

/-!
# Where the messages of a network come from

Control and data share the sockets of a node, so every statement about what a node does with a
message begins with where the message comes from. Over a run with the labels `ls`:

* `UnicastFrom` lists what node `n` can have addressed to the identity `c`: the hello of a
  connection, the answer to an announcement, or what the comm thread sends on of a payload one of
  its threads passed to `send` for `c`;
* `MulticastFrom` lists what node `n` can have published on a group: its announcement, or what is
  sent on of a payload a thread passed to `publish` for that group;
* `Sourced` says so of every queue of a node, `sourced_exec` that it holds in every state of every
  run, whatever is lost, failing or unserved in it. `SourcedBy R` is the same for runs in which all
  payloads sent on have `R`.
-/

set_option linter.unusedSectionVars false

namespace CommTest.Zmq

open FairQueue Lts

variable {N τ : Type} [DecidableEq N] [DecidableEq τ]

/-! ## Sources -/

/-- A thread of node `n` passed the payload of `m` to `send` for the identity `c`. -/
def SentFrom (home : τ → N) (ls : List (NetLabel N τ)) (n : N) (c : Cliid) (m : Msg τ) : Prop :=
  ∃ t x, m.origin = .send t ∧ home t = n ∧ ide2i x = c ∧ .app t (.send x m.data) ∈ ls

/-- A thread of node `n` passed the payload of `m` to `publish` for the group `gid`. -/
def PublishedFrom (home : τ → N) (ls : List (NetLabel N τ)) (n : N) (gid : Cliid) (m : Msg τ) : Prop :=
  ∃ t, m.origin = .publish t ∧ home t = n ∧ .app t (.publish gid m.data) ∈ ls

/-- What waits at node `n` to be published on the group `gid`. -/
inductive QueuedFrom (key : N → Cliid) (home : τ → N) (ls : List (NetLabel N τ)) (n : N)
    (gid : Cliid) (m : Msg τ) : Prop
  | announcement (ho : m.origin = .comm) (hd : m.data = pubHello (key n))
  | published (h : PublishedFrom home ls n gid m)

/-- What node `n` addresses to the identity `c`, when it sends on payloads with `R` only. -/
inductive UnicastFrom (R : Bytes → Prop) (home : τ → N) (ls : List (NetLabel N τ)) (n : N)
    (c : Cliid) (m : Msg τ) : Prop
  | hello (ho : m.origin = .comm) (hd : m.data = commHandlerInit)
  | reply (ho : m.origin = .comm) (hd : m.data = commHandlerSubInit)
  | sent {m₀} (h : SentFrom home ls n c m₀) (hR : R m₀.data) (hm : m = m₀.forwarded)

/-- What node `n` publishes on the group `gid`, when it sends on payloads with `R` only. -/
inductive MulticastFrom (R : Bytes → Prop) (key : N → Cliid) (home : τ → N)
    (ls : List (NetLabel N τ)) (n : N) (gid : Cliid) (m : Msg τ) : Prop
  | announcement (ho : m.origin = .comm) (hd : m.data = pubHello (key n))
  | published {m₀} (h : PublishedFrom home ls n gid m₀) (hR : R m₀.data) (hm : m = m₀.forwarded)

/-- Some thread passed these bytes to `send` or to `publish`. -/
def Passed (ls : List (NetLabel N τ)) (data : Bytes) : Prop :=
  ∃ t x, .app t (.send x data) ∈ ls ∨ .app t (.publish x data) ∈ ls

/-- What is sent on of bytes with `R` that some thread passed. -/
def PassedOn (R : Bytes → Prop) (ls : List (NetLabel N τ)) (data : Bytes) : Prop :=
  ∃ d, Passed ls d ∧ R d ∧ data = forwarded d

/-- The sources of everything in the queues of node `n`, when payloads with `R` only are sent on. -/
structure SourcedBy (R : Bytes → Prop) (key : N → Cliid) (home : τ → N)
    (ls : List (NetLabel N τ)) (n : N) (s : CommHandler τ) : Prop where
  id : s.id = key n
  queued : ∀ e ∈ s.msgq, SentFrom home ls n e.2.1 e.2.2
  out : ∀ e ∈ s.routerOut, UnicastFrom R home ls n e.1 e.2
  inbox : ∀ e ∈ s.routerIn, ∃ a, e.1 = key a ∧ UnicastFrom R home ls a (key n) e.2
  pubQueued : ∀ e ∈ s.pubSendpull, QueuedFrom key home ls n e.2.1 e.2.2
  published : ∀ e ∈ s.pubOut, MulticastFrom R key home ls n e.1 e.2
  arrived : ∀ e ∈ s.subSock, ∃ a, MulticastFrom R key home ls a e.1 e.2
  tasks : ∀ e ∈ s.taskLog ++ s.heldTask, e.2.origin ≠ .comm → PassedOn R ls e.2.data

/-- The sources in any run: a payload whose length is negative as an `int` ends the thread. -/
abbrev Sourced (key : N → Cliid) (home : τ → N) (ls : List (NetLabel N τ)) (n : N)
    (s : CommHandler τ) : Prop :=
  SourcedBy (fun d => ¬ recvLen d < 0) key home ls n s

/-- The payload that a step of the comm thread takes from `msgq` or from the queue of `publish` and
sends on, with the identity or the group it is for. -/
def CommHandler.sendsOn (s : CommHandler τ) (l : CommLabel τ) : Option (Cliid × Msg τ) :=
  match s.pc, l with
  | .blocks (.msgq :: _), .msgq t true => (pop t s.msgq).map fun e => e.1
  | .blocks (.pubSend :: _), .pubSend t true =>
      match pop t s.pubSendpull with
      | some ((gid, m), _) => if gid < 0 ∨ m.origin = .comm then none else some (gid, m)
      | none => none
  | _, _ => none

section

variable {R : Bytes → Prop} {key : N → Cliid} {home : τ → N} {ls : List (NetLabel N τ)} {n : N}

theorem UnicastFrom.short {c : Cliid} {m : Msg τ} (h : UnicastFrom R home ls n c m) :
    m.data.length < 2 ^ 31 := by
  cases h with
  | hello ho hd =>
      rw [hd]
      exact length_commHandlerInit_lt
  | reply ho hd =>
      rw [hd]
      exact length_commHandlerSubInit_lt
  | sent h hR hm =>
      rw [hm]
      exact length_forwarded_lt _

theorem MulticastFrom.short {gid : Cliid} {m : Msg τ} (h : MulticastFrom R key home ls n gid m) :
    m.data.length < 2 ^ 31 := by
  cases h with
  | announcement ho hd =>
      rw [hd]
      exact length_pubHello_lt _
  | published h hR hm =>
      rw [hm]
      exact length_forwarded_lt _

theorem UnicastFrom.passedOn {c : Cliid} {m : Msg τ} (h : UnicastFrom R home ls n c m)
    (hm : m.origin ≠ .comm) : PassedOn R ls m.data := by
  cases h with
  | hello ho | reply ho => exact absurd ho hm
  | sent h hR hm =>
      obtain ⟨t, x, -, -, -, hmem⟩ := h
      rw [hm]
      exact ⟨_, ⟨t, x, .inl hmem⟩, hR, rfl⟩

theorem MulticastFrom.passedOn {gid : Cliid} {m : Msg τ} (h : MulticastFrom R key home ls n gid m)
    (hm : m.origin ≠ .comm) : PassedOn R ls m.data := by
  cases h with
  | announcement ho => exact absurd ho hm
  | published h hR hm =>
      obtain ⟨t, -, -, hmem⟩ := h
      rw [hm]
      exact ⟨_, ⟨t, gid, .inr hmem⟩, hR, rfl⟩

/-- What waits to be published and is sent on. -/
theorem QueuedFrom.forwarded {gid : Cliid} {m : Msg τ} (h : QueuedFrom key home ls n gid m)
    (hR : m.origin ≠ .comm → R m.data) : MulticastFrom R key home ls n gid m.forwarded := by
  cases h with
  | announcement ho hd =>
      refine .announcement ho ?_
      rw [Msg.forwarded_data, hd, forwarded_of_lt (length_pubHello_lt _)]
  | published h =>
      refine .published h (hR ?_) rfl
      obtain ⟨t, ho, -⟩ := h
      simp [ho]

/-- What is sent on of whole payloads is what was passed. -/
theorem PassedOn.passed {data : Bytes} (h : PassedOn (fun d => ¬ recvLen d < 0) ls data)
    (hsend : ∀ l ∈ ls, IntactSend l) (hpublish : ∀ l ∈ ls, IntactPublish l) : Passed ls data := by
  obtain ⟨d, ⟨t, x, hmem⟩, hlen, rfl⟩ := h
  have hwhole : Whole d := hmem.elim (hsend _) (hpublish _)
  rw [hwhole.forwarded hlen]
  exact ⟨t, x, hmem⟩

/-! ## One node -/

namespace SourcedBy

variable {s s' : CommHandler τ}

/-- What has arrived at the ROUTER socket is short. -/
theorem short (hs : SourcedBy R key home ls n s) : ∀ e ∈ s.routerIn, e.2.data.length < 2 ^ 31 := by
  intro e he
  obtain ⟨a, -, hfrom⟩ := hs.inbox e he
  exact hfrom.short

/-- What takes from the queues and adds nothing keeps the sources. -/
theorem mono (hs : SourcedBy R key home ls n s) (hid : s'.id = s.id) (hq : s'.msgq ⊆ s.msgq)
    (hout : s'.routerOut ⊆ s.routerOut) (hin : s'.routerIn ⊆ s.routerIn)
    (hpq : s'.pubSendpull ⊆ s.pubSendpull) (hpub : s'.pubOut ⊆ s.pubOut)
    (harr : s'.subSock ⊆ s.subSock)
    (htasks : s'.taskLog ++ s'.heldTask ⊆ s.taskLog ++ s.heldTask) : SourcedBy R key home ls n s' where
  id := hid.trans hs.id
  queued e he := hs.queued e (hq he)
  out e he := hs.out e (hout he)
  inbox e he := hs.inbox e (hin he)
  pubQueued e he := hs.pubQueued e (hpq he)
  published e he := hs.published e (hpub he)
  arrived e he := hs.arrived e (harr he)
  tasks e he := hs.tasks e (htasks he)

/-- The same for a step after which no task is being pushed and none has been. -/
theorem quiet (hs : SourcedBy R key home ls n s) (hid : s'.id = s.id) (hq : s'.msgq ⊆ s.msgq)
    (hout : s'.routerOut ⊆ s.routerOut) (hin : s'.routerIn ⊆ s.routerIn)
    (hpq : s'.pubSendpull ⊆ s.pubSendpull) (hpub : s'.pubOut ⊆ s.pubOut)
    (harr : s'.subSock ⊆ s.subSock) (htask : s'.taskLog = s.taskLog) (hheld : s'.heldTask = []) :
    SourcedBy R key home ls n s' := by
  refine hs.mono hid hq hout hin hpq hpub harr ?_
  rw [htask, hheld, List.append_nil]
  exact List.subset_append_left _ _

/-- One more message for the ROUTER socket. -/
theorem emit (hs : SourcedBy R key home ls n s) {c : Cliid} {m : Msg τ}
    (hm : UnicastFrom R home ls n c m) :
    SourcedBy R key home ls n { s with routerOut := s.routerOut ++ [(c, m)] } := by
  refine ⟨hs.id, hs.queued, ?_, hs.inbox, hs.pubQueued, hs.published, hs.arrived, hs.tasks⟩
  apply forall_mem_concat hs.out
  exact hm

/-- One more task, which the comm thread is about to push. -/
theorem hold (hs : SourcedBy R key home ls n s) {c : Cliid} {m : Msg τ} (rest : List Block)
    (hm : m.origin ≠ .comm → PassedOn R ls m.data) :
    SourcedBy R key home ls n { s with pc := .pushTask c m rest } := by
  refine ⟨hs.id, hs.queued, hs.out, hs.inbox, hs.pubQueued, hs.published, hs.arrived, ?_⟩
  intro e he
  rcases List.mem_append.mp he with he | he
  · exact hs.tasks e (List.mem_append_left _ he)
  · rw [show e = (c, m) from List.mem_singleton.mp he]
    exact hm

theorem commStep {hwm : Nat} {l : CommLabel τ} (hs : SourcedBy R key home ls n s)
    (hR : ∀ c m, s.sendsOn l = some (c, m) → ¬ recvLen m.data < 0 → R m.data)
    (h : s.commStep hwm l = some s') : SourcedBy R key home ls n s' := by
  have hid : ∀ {α : Type} (q : List α), q ⊆ q := fun q => List.Subset.refl q
  cases CommHandler.commTrans_of_commStep h with
  | helloRetry => exact hs
  | msgqSent hpc hpop hpeer hlen =>
      rename_i rest t cid m q
      have hRm : R m.data := hR cid m (by simp [CommHandler.sendsOn, hpc, hpop]) hlen
      have hm : UnicastFrom R home ls n cid m.forwarded := .sent (hs.queued _ (mem_of_pop hpop)) hRm rfl
      exact (hs.emit hm).quiet rfl (fun _ he => mem_of_mem_pop hpop he) (hid _) (hid _) (hid _)
        (hid _) (hid _) rfl rfl
  | msgqLost hpc hpop =>
      exact hs.quiet rfl (fun _ he => mem_of_mem_pop hpop he) (hid _) (hid _) (hid _) (hid _) (hid _)
        rfl rfl
  | routerSuber hpc hpop | routerClient hpc hpop =>
      exact hs.quiet rfl (hid _) (hid _) (fun _ he => mem_of_mem_pop hpop he) (hid _) (hid _) (hid _)
        rfl rfl
  | routerTask hpc hpop hd hmap hlen =>
      rename_i rest c m q
      obtain ⟨a, -, hm⟩ := hs.inbox _ (mem_of_pop hpop)
      rw [Msg.forwarded_of_lt hm.short]
      exact (hs.hold rest hm.passedOn).mono rfl (hid _) (hid _)
        (fun _ he => mem_of_mem_pop hpop he) (hid _) (hid _) (hid _) (hid _)
  | hello hpc hpeer =>
      rename_i t dest rest
      have hm : UnicastFrom R home ls n dest (Msg.mk commHandlerInit .comm : Msg τ) := .hello rfl rfl
      exact (hs.emit hm).quiet rfl (hid _) (hid _) (hid _) (hid _) (hid _) (hid _) rfl rfl
  | pubSend hpc hpop hlen hgid =>
      rename_i rest t gid m q
      refine ⟨hs.id, hs.queued, hs.out, hs.inbox, ?_, ?_, hs.arrived, ?_⟩
      · intro e he
        exact hs.pubQueued e (mem_of_mem_pop hpop he)
      · apply forall_mem_concat hs.published
        refine (hs.pubQueued _ (mem_of_pop hpop)).forwarded fun ho => hR gid m ?_ hlen
        simp [CommHandler.sendsOn, hpc, hpop, hgid, ho]
      · intro e he
        exact hs.tasks e (List.mem_append_left _ (by simpa [CommHandler.heldTask] using he))
  | pubSendFail hpc hpop =>
      exact hs.quiet rfl (hid _) (hid _) (hid _) (fun _ he => mem_of_mem_pop hpop he) (hid _) (hid _)
        rfl rfl
  | subSockNew hpc hq hpub hpid hmap hpeer =>
      rename_i rest behind junk gid m q pid sent
      have htail : q ⊆ s.subSock := by
        rw [hq]
        exact List.subset_cons_self _ _
      cases sent with
      | true =>
          have hm : UnicastFrom R home ls n pid (Msg.mk commHandlerSubInit .comm : Msg τ) :=
            .reply rfl rfl
          exact (hs.emit hm).quiet rfl (hid _) (hid _) (hid _) (hid _) (hid _) htail rfl rfl
      | false =>
          refine hs.quiet rfl (hid _) ?_ (hid _) (hid _) (hid _) htail rfl rfl
          simp [CommHandler.subReply, CommHandler.unlock]
  | subSockOld hpc hq hpub hmap =>
      rename_i rest behind junk sent gid m q
      have htail : q ⊆ s.subSock := by
        rw [hq]
        exact List.subset_cons_self _ _
      exact hs.quiet rfl (hid _) (hid _) (hid _) (hid _) (hid _) htail rfl rfl
  | subSockTask hpc hq hpub =>
      rename_i rest behind junk sent gid m q
      have htail : q ⊆ s.subSock := by
        rw [hq]
        exact List.subset_cons_self _ _
      obtain ⟨a, hm⟩ := hs.arrived (gid, m) (hq ▸ List.mem_cons_self)
      rw [Msg.forwarded_of_lt hm.short]
      exact (hs.hold rest hm.passedOn).mono rfl (hid _) (hid _) (hid _) (hid _) (hid _) htail
        (hid _)
  | pushTask hpc =>
      refine hs.mono rfl (hid _) (hid _) (hid _) (hid _) (hid _) (hid _) ?_
      simp [CommHandler.heldTask, hpc]
  | _ => exact hs.quiet rfl (hid _) (hid _) (hid _) (hid _) (hid _) (hid _) rfl rfl

theorem appStep {t : τ} {l : AppLabel} (hs : SourcedBy R key home ls n s) (hhome : home t = n)
    (hl : .app t l ∈ ls) (h : s.appStep t l = some s') : SourcedBy R key home ls n s' := by
  have hid : ∀ {α : Type} (q : List α), q ⊆ q := fun q => List.Subset.refl q
  obtain ⟨pullers, hattach⟩ := CommHandler.attachTask_eq s t
  cases CommHandler.appTrans_of_appStep h with
  | send hpc herr =>
      rename_i cid data
      refine ⟨hs.id, ?_, hs.out, hs.inbox, hs.pubQueued, hs.published, hs.arrived, hs.tasks⟩
      apply forall_mem_concat hs.queued
      exact ⟨t, cid, rfl, hhome, rfl, hl⟩
  | publish hpc herr =>
      rename_i group data
      refine ⟨hs.id, hs.queued, hs.out, hs.inbox, ?_, hs.published, hs.arrived, hs.tasks⟩
      apply forall_mem_concat hs.pubQueued
      exact .published ⟨t, rfl, hhome, hl⟩
  | announce hpc herr hlt =>
      refine ⟨hs.id, hs.queued, hs.out, hs.inbox, ?_, hs.published, hs.arrived, hs.tasks⟩
      apply forall_mem_concat hs.pubQueued
      exact .announcement rfl (by rw [hs.id])
  | sendReq hpc =>
      rename_i r
      cases r <;> exact hs.mono rfl (hid _) (hid _) (hid _) (hid _) (hid _) (hid _) (hid _)
  | unlock hpc =>
      rename_i r
      cases r <;> exact hs.mono rfl (hid _) (hid _) (hid _) (hid _) (hid _) (hid _) (hid _)
  | recv | recvAsync | recvAsyncEmpty | recvAsyncNone =>
      rw [hattach]
      exact hs.mono rfl (hid _) (hid _) (hid _) (hid _) (hid _) (hid _) (hid _)
  | _ => exact hs.mono rfl (hid _) (hid _) (hid _) (hid _) (hid _) (hid _) (hid _)

end SourcedBy

/-! ## The network -/

variable {ext : N → Cliid} {hwm : Nat} {w w' : N → CommHandler τ}

theorem sourced_init (acceptConns : N → Bool) (n : N) :
    SourcedBy R (nodeKey ext) home ls n (netInit τ ext acceptConns n) where
  id := rfl
  queued e he := by cases he
  out e he := by cases he
  inbox e he := by cases he
  pubQueued e he := by cases he
  published e he := by cases he
  arrived e he := by cases he
  tasks e he := by cases he

/-- A payload that the step sends on, if there is one, has `R`. -/
def SendsOnly (R : Bytes → Prop) (w : N → CommHandler τ) : NetLabel N τ → Prop
  | .comm n l => ∀ c m, (w n).sendsOn l = some (c, m) → ¬ recvLen m.data < 0 → R m.data
  | _ => True

/-- **Every step keeps the sources**: `l` is one of the labels of the run. -/
theorem sourcedBy_step {l : NetLabel N τ} (hl : l ∈ ls) (hR : SendsOnly R w l)
    (hw : ∀ n, SourcedBy R (nodeKey ext) home ls n (w n))
    (h : netStep ext home hwm w l = some w') (n : N) :
    SourcedBy R (nodeKey ext) home ls n (w' n) := by
  have hid : ∀ {α : Type} (q : List α), q ⊆ q := fun q => List.Subset.refl q
  cases netTrans_of_netStep h with
  | comm hs => exact forall_update hw _ ((hw _).commStep hR hs) n
  | app hs => exact forall_update hw _ ((hw _).appStep rfl hl hs) n
  | ctor hs =>
      refine forall_update hw _ ?_ n
      exact (hw _).mono rfl (hid _) (hid _) (hid _) (hid _) (hid _) (hid _) (hid _)
  | monitor =>
      refine forall_update hw _ ?_ n
      exact (hw _).mono rfl (hid _) (hid _) (hid _) (hid _) (hid _) (hid _) (hid _)
  | linkUp =>
      refine forall_update (forall_update hw _ ?_) _ ?_ n
      · exact (hw _).mono rfl (hid _) (hid _) (hid _) (hid _) (hid _) (hid _) (hid _)
      · exact (hw _).mono rfl (hid _) (hid _) (hid _) (hid _) (hid _) (hid _) (hid _)
  | transfer hne hpop =>
      rename_i a b m q
      refine forall_update (forall_update hw a ?_) b ?_ n
      · exact (hw a).mono rfl (hid _) (fun _ he => mem_of_mem_pop hpop he) (hid _) (hid _) (hid _)
          (hid _) (hid _)
      · refine ⟨(hw b).id, (hw b).queued, (hw b).out, ?_, (hw b).pubQueued, (hw b).published,
          (hw b).arrived, (hw b).tasks⟩
        apply forall_mem_concat (hw b).inbox
        exact ⟨a, rfl, (hw a).out _ (mem_of_pop hpop)⟩
  | multicast hpub hsub =>
      rename_i a b gid m
      refine forall_update hw b ?_ n
      refine ⟨(hw b).id, (hw b).queued, (hw b).out, (hw b).inbox, (hw b).pubQueued, (hw b).published,
        ?_, (hw b).tasks⟩
      apply forall_mem_concat (hw b).arrived
      exact ⟨a, (hw a).published _ hpub⟩

theorem sourced_step {l : NetLabel N τ} (hl : l ∈ ls)
    (hw : ∀ n, Sourced (nodeKey ext) home ls n (w n)) (h : netStep ext home hwm w l = some w') (n : N) :
    Sourced (nodeKey ext) home ls n (w' n) := by
  refine sourcedBy_step hl ?_ hw h n
  cases l with
  | comm => exact fun _ _ _ hlen => hlen
  | _ => trivial

/-- **In every state of every run everything in the queues has a source.** -/
theorem sourced_exec {acceptConns : N → Bool}
    (hrun : exec (netStep ext home hwm) (netInit τ ext acceptConns) ls = some w) (n : N) :
    Sourced (nodeKey ext) home ls n (w n) := by
  have hmeets : Meets (netStep ext home hwm) (fun _ l => l ∈ ls) (netInit τ ext acceptConns) ls :=
    meets_of_forall_mem fun l hl _ => hl
  have hstep : ∀ (v : N → CommHandler τ) (l : NetLabel N τ) (v' : N → CommHandler τ),
      (∀ x, Sourced (nodeKey ext) home ls x (v x)) → l ∈ ls → netStep ext home hwm v l = some v' →
      ∀ x, Sourced (nodeKey ext) home ls x (v' x) := fun v l v' hv hl h => sourced_step hl hv h
  exact exec_invariant_of_meets hstep (sourced_init acceptConns) hmeets hrun n

end

end CommTest.Zmq
