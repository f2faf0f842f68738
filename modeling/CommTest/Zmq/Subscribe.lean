import CommTest.Zmq.Release

/-!
# Does every `subscribe_to` complete its handshake?

The caller of `subscribe_to` waits on `sync_mtx` until the comm thread answers an announcement. The
answer, and with it the release, depends on `publishermap`, which has one entry per publisher; the
requests are per group. An announcement of a publisher that has been answered before, for whatever
group, is dropped.

* `Subscriber τ` is a node with the history of its calls: the `pubids` of the requests under way,
  the calls that the comm thread has processed and that no announcement on one of their groups has
  followed (`pending`), and those whose first announcement was not answered (`missed`).
* `Handshakes` is what the callers rely on: no call is missed, and the requests on record are those
  in the queue.
* `FreshPublisher` is the condition: the announcement that a pending call waits for comes from a
  publisher not in `publishermap`, and the send of the answer succeeds.
* `handshakes_iff_freshPublisher`: the states of a run are all of that kind if and only if its steps
  all meet the condition.
-/

set_option linter.unusedSectionVars false

namespace CommTest.Zmq

open FairQueue Lts

variable {τ : Type} [DecidableEq τ]

/-! ## Announcements and calls -/

/-- The publisher that a message announces, if it is an announcement. -/
def Msg.announces (m : Msg τ) : Option Cliid :=
  if m.data = pubHello (pubId 0 (cstr m.data [])) then some (pubId 0 (cstr m.data [])) else none

theorem Msg.announces_eq_some {m : Msg τ} {pid : Cliid} :
    m.announces = some pid ↔ m.data = pubHello pid := by
  constructor
  · intro h
    unfold Msg.announces at h
    split_ifs at h with hd
    cases h
    exact hd
  · intro h
    unfold Msg.announces
    rw [h, pubId_pubHello, if_pos rfl]

/-- The text of the subscription that a thread is about to request. -/
def AppPc.subscribing : AppPc → Option Bytes
  | .calling (.subscribe text) | .locked (.subscribe text) => some text
  | _ => none

/-- A node with the history of its `subscribe_to` calls. -/
structure Subscriber (τ : Type) where
  node : CommHandler τ
  /-- The `pubids` of the last call of each thread. -/
  ids : τ → List Cliid
  /-- The requests in `subpull`, with the `pubids` of their calls. -/
  queued : List (τ × Bytes × List Cliid)
  /-- The calls that have been processed and still wait for an announcement. -/
  pending : List (τ × List Cliid)
  /-- The calls whose first announcement was not answered. -/
  missed : List (τ × List Cliid)

namespace Subscriber

/-- A node that has just been constructed. -/
def init (τ : Type) (id : Cliid) (acceptConns : Bool) : Subscriber τ :=
  ⟨CommHandler.init τ id acceptConns, fun _ => [], [], [], []⟩

/-- The announcement that the `sub_sock` block receives next: its group and its publisher. -/
def announced (w : Subscriber τ) : Option (Cliid × Cliid) :=
  match w.node.subSock with
  | (gid, m) :: _ => m.announces.map fun pid => (gid, pid)
  | [] => none

/-- The comm thread has sent a `sub_hello` to `pid` and released `sync_mtx`. -/
def answered (w : Subscriber τ) (s' : CommHandler τ) (pid : Cliid) : Bool :=
  s'.mtx = none ∧ s'.routerOut = w.node.routerOut ++ [(pid, ⟨commHandlerSubInit, .comm⟩)]

/-- The comm thread goes on with its loop. -/
def serving (s : CommHandler τ) : Bool :=
  match s.pc with
  | .blocks _ => true
  | _ => false

/-- What a step of the node into `s'` adds to the history. -/
def record (w : Subscriber τ) (s' : CommHandler τ) : Label τ → Subscriber τ
  | .app t (.subscribeTo _ _ pubids) =>
      { w with node := s', ids := Function.update w.ids t pubids }
  | .app t (.sendReq true) =>
      match w.node.app t with
      | .locked (.subscribe text) =>
          { w with node := s', queued := w.queued ++ [(t, text, w.ids t)] }
      | _ => { w with node := s' }
  | .comm (.sub t _ _ _) =>
      match pop t w.queued with
      | some (e, q) =>
          { w with node := s', queued := q,
                   pending := w.pending ++ if serving s' then [(t, e.2)] else [] }
      | none => { w with node := s' }
  | .comm (.subSock _ _ _) =>
      match w.announced with
      | some (gid, pid) =>
          { w with node := s', pending := w.pending.filter (gid ∉ ·.2),
                   missed := w.missed ++
                     if w.answered s' pid then [] else w.pending.filter (gid ∈ ·.2) }
      | none => { w with node := s' }
  | _ => { w with node := s' }

/-- One step of the node, with its history. -/
def step (hwm : Nat) (w : Subscriber τ) (l : Label τ) : Option (Subscriber τ) :=
  (w.node.step hwm l).map fun s' => w.record s' l

/-- **Every call completes its handshake**: the first announcement on a group of a processed call
was answered with a `sub_hello` to its publisher and released `sync_mtx`. The requests on record are
those in the queue, with the `pubids` they were made from. -/
structure Handshakes (w : Subscriber τ) : Prop where
  queued : w.queued.map (fun e => (e.1, e.2.1)) = w.node.subpull
  texts : ∀ e ∈ w.queued, ∃ ip port, e.2.1 = subText ip port e.2.2
  missed : w.missed = []

/-- The announcement that a pending call waits for is of a publisher not in `publishermap`, and the
send of the answer succeeds. -/
def FreshPublisher (w : Subscriber τ) : Label τ → Prop
  | .comm (.subSock _ _ sent) => ∀ gid pid, w.announced = some (gid, pid) →
      (∃ c ∈ w.pending, gid ∈ c.2) → w.node.publishermap pid = none ∧ sent = true
  | _ => True

end Subscriber

/-! ## The queue of requests -/

namespace CommHandler

/-- Only the `subpull` block takes from `subpull`. -/
theorem commStep_subpull {hwm : Nat} {s s' : CommHandler τ} {l : CommLabel τ}
    (h : s.commStep hwm l = some s') :
    (∃ t behind junk fails text, l = .sub t behind junk fails ∧
      pop t s.subpull = some (text, s'.subpull)) ∨
    ((∀ t behind junk fails, l ≠ .sub t behind junk fails) ∧ s'.subpull = s.subpull) := by
  cases commTrans_of_commStep h with
  | sub hpc hpop | subConnFail hpc hpop | subSetFail hpc hpop | subSpin hpc hpop =>
      exact .inl ⟨_, _, _, _, _, rfl, hpop⟩
  | _ => exact .inr ⟨by simp, rfl⟩

/-- Only the send of a `subscribe_to` adds to `subpull`. -/
theorem appStep_subpull {s s' : CommHandler τ} {t : τ} {l : AppLabel} (h : s.appStep t l = some s') :
    (∃ text, l = .sendReq true ∧ s.app t = .locked (.subscribe text) ∧
      s'.subpull = s.subpull ++ [(t, text)]) ∨
    ((l = .sendReq true → ∀ text, s.app t ≠ .locked (.subscribe text)) ∧
      s'.subpull = s.subpull) := by
  obtain ⟨pullers, hattach⟩ := attachTask_eq s t
  cases appTrans_of_appStep h with
  | sendReq hpc =>
      rename_i r
      cases r with
      | subscribe text => exact .inl ⟨text, rfl, hpc, rfl⟩
      | connect | pubStart => exact .inr ⟨by simp [hpc], rfl⟩
  | unlock hpc =>
      rename_i r
      cases r <;> exact .inr ⟨by simp [hpc], rfl⟩
  | recv hpc | recvAsync hpc | recvAsyncEmpty hpc | recvAsyncNone hpc =>
      rw [hattach]
      exact .inr ⟨by simp [hpc], rfl⟩
  | reject hpc | call hpc | announceStart hpc | lock hpc | sendReqFail hpc | relock hpc | announce hpc
  | announced hpc | announcedFail hpc | announceEnd hpc | drain hpc | drainEmpty hpc | drainEnd hpc
  | publish hpc | send hpc | recvDone hpc | getOneConnection hpc | pop hpc | shutdown hpc | join hpc
  | test hpc => exact .inr ⟨by simp [hpc], rfl⟩

/-- A call that goes on to a subscription is a `subscribe_to`. -/
theorem appStep_calling_subscribe {s s' : CommHandler τ} {t : τ} {l : AppLabel} {text : Bytes}
    (hpc : s.app t = .idle) (h : s.appStep t l = some s')
    (hcall : s'.app t = .calling (.subscribe text)) :
    ∃ ip port pubids, l = .subscribeTo ip port pubids ∧ text = subText ip port pubids := by
  have happ : (s.appStep t l).map (fun u => u.app t) = some (.calling (.subscribe text)) := by
    rw [h, Option.map_some, hcall]
  obtain ⟨pullers, hattach⟩ := attachTask_eq s t
  cases l with
  | subscribeTo ip port pubids =>
      refine ⟨ip, port, pubids, rfl, ?_⟩
      simp only [appStep, hpc] at happ
      split_ifs at happ
      · simp [ret] at happ
      · simpa [goto] using happ.symm
  | connectTo | initPub | publish | send | recv | getOneConnection =>
      simp only [appStep, hpc] at happ
      split_ifs at happ <;> simp [goto, ret, startAnnounce] at happ
  | recvAsync =>
      simp only [appStep, hpc] at happ
      split_ifs at happ
      · simp [ret] at happ
      · split at happ
        · split_ifs at happ <;> simp [goto, ret] at happ
        · simp [ret] at happ
  | _ => simp [appStep, hpc, goto] at happ

/-- A thread subscribes with the text of the call it makes, or goes on with the one it has. -/
theorem appStep_subscribing {s s' : CommHandler τ} {t : τ} {l : AppLabel} {text : Bytes}
    (h : s.appStep t l = some s') (hsub : (s'.app t).subscribing = some text) :
    (∃ ip port pubids, l = .subscribeTo ip port pubids ∧ text = subText ip port pubids) ∨
    (l = .lock ∧ (s.app t).subscribing = some text) := by
  have hrest : ∀ pc : AppPc, s'.app t = pc → pc.subscribing = none → False := by
    intro pc hpc hnone
    rw [hpc, hnone] at hsub
    cases hsub
  cases appTrans_of_appStep h with
  | call hpc =>
      rename_i r
      cases r with
      | connect | pubStart => exact (hrest _ (Function.update_self _ _ _) rfl).elim
      | subscribe text' =>
          simp only [goto, Function.update_self] at hsub
          cases hsub
          exact .inl (appStep_calling_subscribe hpc h (Function.update_self _ _ _))
  | lock hpc hm =>
      rename_i r
      refine .inr ⟨rfl, ?_⟩
      simp only [goto, Function.update_self] at hsub
      rw [hpc]
      cases r with
      | connect | pubStart => cases hsub
      | subscribe => exact hsub
  | unlock hpc =>
      rename_i r
      cases r <;> exact (hrest _ (Function.update_self _ _ _) rfl).elim
  | _ => exact (hrest _ (Function.update_self _ _ _) rfl).elim

/-- What the `sub_sock` block does with an announcement of `pid`: it answers and releases the mutex
if `pid` is not in `publishermap`, and sends nothing otherwise. -/
theorem subSock_announcement {hwm : Nat} {s s' : CommHandler τ} {behind : Bytes} {junk pid gid : Cliid}
    {sent : Bool} {m : Msg τ} {q : List (Cliid × Msg τ)} (hq : s.subSock = (gid, m) :: q)
    (hm : m.data = pubHello pid) (h : s.commStep hwm (.subSock behind junk sent) = some s') :
    (s.publishermap pid = none ∧ s'.mtx = none ∧ s'.routerOut = s.routerOut ++ subReply sent pid) ∨
    (s.publishermap pid ≠ none ∧ s'.routerOut = s.routerOut) := by
  cases commTrans_of_commStep h with
  | subSockNew hpc hq' hpub hpid hmap =>
      rw [hq] at hq'
      cases hq'
      rw [hm, pubId_pubHello] at hpid
      subst hpid
      exact .inl ⟨hmap, rfl, rfl⟩
  | subSockOld hpc hq' hpub hmap =>
      rw [hq] at hq'
      cases hq'
      rw [hm, pubId_pubHello] at hmap
      exact .inr ⟨hmap, rfl⟩
  | subSockTask hpc hq' hpub =>
      rw [hq] at hq'
      cases hq'
      rw [hm, pubHello_take] at hpub
      exact absurd rfl hpub

end CommHandler

/-! ## The invariant -/

namespace Subscriber

/-- The history is that of the node: the requests on record are those in the queue, made from the
`pubids` on record, which are those of the call a thread is in. -/
structure Recorded (w : Subscriber τ) : Prop where
  queued : w.queued.map (fun e => (e.1, e.2.1)) = w.node.subpull
  texts : ∀ e ∈ w.queued, ∃ ip port, e.2.1 = subText ip port e.2.2
  calls : ∀ t text, (w.node.app t).subscribing = some text → ∃ ip port, text = subText ip port (w.ids t)

theorem recorded_init (id : Cliid) (acceptConns : Bool) : (init τ id acceptConns).Recorded where
  queued := rfl
  texts _ h := by cases h
  calls _ _ h := by cases h

theorem step_eq_some {hwm : Nat} {w w' : Subscriber τ} {l : Label τ} :
    w.step hwm l = some w' ↔ ∃ s', w.node.step hwm l = some s' ∧ w.record s' l = w' :=
  Option.map_eq_some_iff

/-- A step that leaves the requests, the calls and their record alone. -/
theorem Recorded.congr {w w' : Subscriber τ} (hw : w.Recorded) (h1 : w'.queued = w.queued)
    (h2 : w'.node.subpull = w.node.subpull) (h3 : w'.node.app = w.node.app) (h4 : w'.ids = w.ids) :
    w'.Recorded where
  queued := by rw [h1, h2, hw.queued]
  texts := by
    rw [h1]
    exact hw.texts
  calls := by
    rw [h3, h4]
    exact hw.calls

/-- The request that the `subpull` block takes is on record. -/
theorem Recorded.pop {w : Subscriber τ} (hw : w.Recorded) {t : τ} {text : Bytes}
    {q : List (τ × Bytes)} (h : FairQueue.pop t w.node.subpull = some (text, q)) :
    ∃ ids q', FairQueue.pop t w.queued = some ((text, ids), q') ∧
      q'.map (fun e => (e.1, e.2.1)) = q := by
  rw [← hw.queued, pop_map Prod.fst t w.queued] at h
  obtain ⟨⟨⟨text', ids⟩, q'⟩, hpop, heq⟩ := Option.map_eq_some_iff.mp h
  simp only [Prod.mk.injEq] at heq
  obtain ⟨rfl, rfl⟩ := heq
  exact ⟨ids, q', hpop, rfl⟩

theorem recorded_comm {hwm : Nat} {w w' : Subscriber τ} {l : CommLabel τ} (hw : w.Recorded)
    (h : w.step hwm (.comm l) = some w') : w'.Recorded := by
  obtain ⟨s', hs, rfl⟩ := step_eq_some.mp h
  have happ : s'.app = w.node.app := CommHandler.commStep_app hs
  rcases CommHandler.commStep_subpull hs with ⟨t, behind, junk, fails, text, rfl, hpop⟩ | ⟨hne, hsame⟩
  · obtain ⟨ids, q', hpop', hq'⟩ := hw.pop hpop
    simp only [record, hpop']
    refine ⟨hq', fun e he => hw.texts e (mem_of_mem_pop hpop' he), ?_⟩
    rw [happ]
    exact hw.calls
  · cases l with
    | sub t behind junk fails => exact absurd rfl (hne t behind junk fails)
    | subSock behind junk sent =>
        simp only [record]
        cases w.announced with
        | none => exact hw.congr rfl hsame happ rfl
        | some e => exact hw.congr rfl hsame happ rfl
    | _ => exact hw.congr rfl hsame happ rfl

theorem recorded_app {hwm : Nat} {w w' : Subscriber τ} {t : τ} {l : AppLabel} (hw : w.Recorded)
    (h : w.step hwm (.app t l) = some w') : w'.Recorded := by
  obtain ⟨s', hs, rfl⟩ := step_eq_some.mp h
  obtain ⟨-, hs⟩ := CommHandler.step_app_eq_some hs
  obtain ⟨⟨pc, hupd⟩, -⟩ := CommHandler.appStep_lock hs
  -- the calls of the other threads are as before, whatever is recorded of `t`
  have hothers : ∀ u, u ≠ t → ∀ text, (s'.app u).subscribing = some text →
      ∃ ip port, text = subText ip port (w.ids u) := by
    intro u hu text hsub
    rw [hupd, Function.update_of_ne hu] at hsub
    exact hw.calls u text hsub
  have hown : (∀ ip port pubids, l ≠ .subscribeTo ip port pubids) → ∀ u text,
      (s'.app u).subscribing = some text → ∃ ip port, text = subText ip port (w.ids u) := by
    intro hne u text hsub
    by_cases hu : u = t
    · subst hu
      rcases CommHandler.appStep_subscribing hs hsub with ⟨ip, port, pubids, hl, -⟩ | ⟨-, hold⟩
      · exact absurd hl (hne ip port pubids)
      · exact hw.calls u text hold
    · exact hothers u hu text hsub
  rcases CommHandler.appStep_subpull hs with ⟨text, rfl, hlocked, hadd⟩ | ⟨hno, hsame⟩
  · simp only [record, hlocked]
    refine ⟨?_, ?_, hown (by simp)⟩
    · rw [List.map_append, hw.queued, hadd]
      rfl
    · apply forall_mem_concat hw.texts
      exact hw.calls t text (by rw [hlocked]; rfl)
  · have hsame' : w.queued.map (fun e => (e.1, e.2.1)) = s'.subpull := by rw [hsame, hw.queued]
    cases l with
    | subscribeTo ip port pubids =>
        refine ⟨hsame', hw.texts, ?_⟩
        intro u text hsub
        by_cases hu : u = t
        · subst hu
          rcases CommHandler.appStep_subscribing hs hsub with ⟨ip', port', ids, hl, htext⟩ | ⟨hl, -⟩
          · cases hl
            exact ⟨ip, port, by simpa [record] using htext⟩
          · cases hl
        · obtain ⟨ip', port', htext⟩ := hothers u hu text hsub
          exact ⟨ip', port', by simpa [record, Function.update_of_ne hu] using htext⟩
    | sendReq ok =>
        have hrec : w.record s' (.app t (.sendReq ok)) = { w with node := s' } := by
          cases ok with
          | false => rfl
          | true =>
              simp only [record]
              split
              · rename_i text hlocked
                exact absurd hlocked (hno rfl text)
              · rfl
        rw [hrec]
        exact ⟨hsame', hw.texts, hown (by simp)⟩
    | _ => exact ⟨hsame', hw.texts, hown (by simp)⟩

theorem recorded_step {hwm : Nat} (w : Subscriber τ) (l : Label τ) (w' : Subscriber τ)
    (hw : w.Recorded) (h : w.step hwm l = some w') : w'.Recorded := by
  cases l with
  | comm l => exact recorded_comm hw h
  | app t l => exact recorded_app hw h
  | ctor l =>
      obtain ⟨s', hs, rfl⟩ := step_eq_some.mp h
      rcases CommHandler.ctorStep_eq_some hs with ⟨-, -, rfl⟩ | ⟨-, rfl⟩
      · exact hw.congr rfl rfl rfl rfl
      · exact hw.congr rfl rfl rfl rfl
  | env l =>
      obtain ⟨s', hs, rfl⟩ := step_eq_some.mp h
      cases hs
      cases l <;> exact hw.congr rfl rfl rfl rfl

theorem Recorded.handshakes_iff {w : Subscriber τ} (hw : w.Recorded) :
    w.Handshakes ↔ w.missed = [] :=
  ⟨fun h => h.missed, fun h => ⟨hw.queued, hw.texts, h⟩⟩

/-- The announcement was answered exactly when its publisher is new and the send succeeds. -/
theorem answered_iff {hwm : Nat} {w : Subscriber τ} {s' : CommHandler τ} {behind : Bytes}
    {junk gid pid : Cliid} {sent : Bool} (hann : w.announced = some (gid, pid))
    (h : w.node.step hwm (.comm (.subSock behind junk sent)) = some s') :
    w.answered s' pid = true ↔ w.node.publishermap pid = none ∧ sent = true := by
  unfold announced at hann
  split at hann
  · rename_i gid' m q hq
    obtain ⟨pid', hm, heq⟩ := Option.map_eq_some_iff.mp hann
    simp only [Prod.mk.injEq] at heq
    obtain ⟨rfl, rfl⟩ := heq
    simp only [answered, decide_eq_true_eq]
    have hstep : w.node.commStep hwm (.subSock behind junk sent) = some s' := h
    rcases CommHandler.subSock_announcement hq (Msg.announces_eq_some.mp hm) hstep with
      ⟨hmap, hmtx, hout⟩ | ⟨hmap, hout⟩
    · rw [hout]
      cases sent with
      | true => exact iff_of_true ⟨hmtx, rfl⟩ ⟨hmap, rfl⟩
      | false => exact iff_of_false (by simp [CommHandler.subReply]) (by simp)
    · refine iff_of_false ?_ fun hc => hmap hc.1
      rintro ⟨-, hadd⟩
      rw [hout] at hadd
      simp at hadd
  · cases hann

/-- **One step misses no call exactly when it meets the condition.** -/
theorem handshakes_step {hwm : Nat} (w : Subscriber τ) (l : Label τ) (w' : Subscriber τ)
    (hw : w.Recorded) (hP : w.Handshakes) (h : w.step hwm l = some w') :
    w'.Handshakes ↔ w.FreshPublisher l := by
  rw [(recorded_step w l w' hw h).handshakes_iff]
  obtain ⟨s', hs, rfl⟩ := step_eq_some.mp h
  cases l with
  | comm l =>
      cases l with
      | subSock behind junk sent =>
          cases hann : w.announced with
          | none =>
              simp only [record, hann]
              refine iff_of_true hP.missed ?_
              intro gid pid hsome
              rw [hann] at hsome
              cases hsome
          | some e =>
              obtain ⟨gid, pid⟩ := e
              simp only [record, hann, hP.missed, List.nil_append]
              have hans := answered_iff hann hs
              have hcond : w.FreshPublisher (.comm (.subSock behind junk sent)) ↔
                  ((∃ c ∈ w.pending, gid ∈ c.2) → w.answered s' pid = true) := by
                rw [hans]
                simp [FreshPublisher, hann]
              rw [hcond]
              by_cases ha : w.answered s' pid = true
              · simp [ha]
              · simp [ha, List.filter_eq_nil_iff]
      | sub t behind junk fails =>
          simp only [record]
          cases pop t w.queued with
          | none => exact iff_of_true hP.missed trivial
          | some e => exact iff_of_true hP.missed trivial
      | _ => exact iff_of_true hP.missed trivial
  | app t l =>
      cases l with
      | sendReq ok =>
          cases ok with
          | false => exact iff_of_true hP.missed trivial
          | true =>
              simp only [record]
              split
              · exact iff_of_true hP.missed trivial
              · exact iff_of_true hP.missed trivial
      | _ => exact iff_of_true hP.missed trivial
  | ctor l => exact iff_of_true hP.missed trivial
  | env l => exact iff_of_true hP.missed trivial

/-- **Every `subscribe_to` completes its handshake in exactly the runs in which it waits for a new
publisher**: for any calls of any threads and any order of announcements, all the states of a run
have no missed call if and only if every announcement that a pending call waits for is of a
publisher not in `publishermap` and its answer is sent. -/
theorem handshakes_iff_freshPublisher (hwm : Nat) (id : Cliid) (acceptConns : Bool)
    (ls : List (Label τ)) (w : Subscriber τ)
    (hrun : exec (step hwm) (init τ id acceptConns) ls = some w) :
    (∀ pre m, pre <+: ls → exec (step hwm) (init τ id acceptConns) pre = some m → m.Handshakes) ↔
      Meets (step hwm) FreshPublisher (init τ id acceptConns) ls := by
  have hinit := recorded_init (τ := τ) id acceptConns
  exact always_iff_meets recorded_step handshakes_step hinit (hinit.handshakes_iff.mpr rfl) hrun

instance (w : Subscriber τ) : ∀ l, Decidable (w.FreshPublisher l)
  | .comm (.subSock _ _ sent) =>
      match h : w.announced with
      | some (gid, pid) => decidable_of_iff
          ((∃ c ∈ w.pending, gid ∈ c.2) → w.node.publishermap pid = none ∧ sent = true)
          (by simp [FreshPublisher, h])
      | none => isTrue (by simp [FreshPublisher, h])
  | .comm (.startup _) | .comm (.poll _) | .comm (.msgq _ _) | .comm (.router _) | .comm .monitor
  | .comm (.conn _ _ _) | .comm (.pubSend _ _) | .comm (.sub _ _ _ _) | .comm (.pubStart _ _ _)
  | .comm .shutdown | .comm .recvFail | .comm (.hello _) | .comm (.push _) | .app _ _ | .ctor _
  | .env _ => isTrue trivial

/-- Construction, then a subscription to group 7 that the announcement of publisher 33 completes. -/
def subscribed : List (Label Unit) :=
  [.comm (.startup true), .comm (.startup true), .comm (.startup true), .ctor .relock, .ctor .unlock,
    .env (.peerUp 33), .app () (.subscribeTo [104] [49] [7]), .app () .lock, .app () (.sendReq true),
    .comm (.poll true), .comm (.sub () [0] 0 none), .env (.subArrive 7 ⟨pubHello 33, .comm⟩),
    .comm (.poll true), .comm (.subSock [] 0 true), .app () .relock, .app () .unlock, .app () .test]

/-- The first subscription completes: the run meets the condition. -/
theorem handshakes_subscribed :
    ∃ w, exec (step 1) (init Unit 1 false) subscribed = some w ∧
      w.node.rets = [((), .subscribeTo, 0)] ∧ w.Handshakes := by
  obtain ⟨w, hrun, hw⟩ := exists_exec (step 1) (init Unit 1 false) subscribed
    (fun w => w.node.rets = [((), .subscribeTo, 0)]) (by decide)
  refine ⟨w, hrun, of_decide_eq_true hw, ?_⟩
  exact (handshakes_iff_freshPublisher 1 1 false _ w hrun).mpr (by decide) _ w List.prefix_rfl hrun

/-- A second call subscribes to group 8 of the same publisher, with an empty address: its
announcement is handled and the caller still waits for `sync_mtx`. -/
theorem not_handshakes_secondGroup :
    ∃ w, exec (step 1) (init Unit 1 false) (subscribed ++
        [.app () (.subscribeTo [] [] [8]), .app () .lock, .app () (.sendReq true),
          .comm (.poll true), .comm (.sub () [0] 0 none), .env (.subArrive 8 ⟨pubHello 33, .comm⟩),
          .comm (.poll true), .comm (.subSock [] 0 true)]) = some w ∧
      w.missed = [((), [8])] ∧ w.node.Blocked () ∧ ¬ w.Handshakes := by
  obtain ⟨w, hrun, hw⟩ := exists_exec (step 1) (init Unit 1 false) (subscribed ++
    [.app () (.subscribeTo [] [] [8]), .app () .lock, .app () (.sendReq true),
      .comm (.poll true), .comm (.sub () [0] 0 none), .env (.subArrive 8 ⟨pubHello 33, .comm⟩),
      .comm (.poll true), .comm (.subSock [] 0 true)])
    (fun w => w.missed = [((), [8])] ∧ w.node.app () = .waiting (.subscribe (subText [] [] [8])) ∧
      w.node.mtx = some (.app ())) (by decide)
  simp only [decide_eq_true_eq] at hw
  obtain ⟨hmissed, happ, hm⟩ := hw
  refine ⟨w, hrun, hmissed, ⟨⟨_, happ⟩, by simp [hm]⟩, ?_⟩
  intro hall
  rw [hall.missed] at hmissed
  cases hmissed

end Subscriber

end CommTest.Zmq
