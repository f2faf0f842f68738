import CommTest.Zmq.Shutdown
import CommTest.Zmq.Errcode

/-!
# `sync_mtx` as a completion signal

A caller of `connect_to`, `init_pub` (with an address) or `subscribe_to` locks `sync_mtx`, sends its
request and locks again; the comm thread unlocks when it has served the request. Two unlocks of the
comm thread are driven by the network instead: the branch of a `sub_hello` on the ROUTER socket, and
the branch of a new publisher's announcement. Either may release a caller whose request is still
in its queue.

* `ReleasesServed` is the pairing, step by step: an unlock of the comm thread releases the caller
  whose request this step completes, and a caller passes its second lock only when its request has
  been processed.
* `SubscriberWaits` is the condition on the two network-driven branches.
* `releasesServed_iff_subscriberWaits`: all steps of a run are paired if and only if they all meet
  that condition. `Paired` is the invariant behind it: at most one request is under way, it is the
  one of the holder of the mutex, and who waits without holding it has been served.
-/

set_option linter.unusedSectionVars false

namespace CommTest.Zmq

open FairQueue Lts

variable {τ : Type} [DecidableEq τ]

/-- A request on its way to the comm thread. -/
inductive Wire
  | conn (dest : Cliid) (text : Bytes)
  | sub (text : Bytes)
  | pubStart (text : Bytes)

/-- What a call sends. -/
def Request.wire : Request → Wire
  | .connect dest text => .conn dest text
  | .pubStart text _ _ => .pubStart text
  | .subscribe text => .sub text

/-- The request of a thread that holds `sync_mtx` or waits for it the second time. -/
def AppPc.request : AppPc → Option Request
  | .locked r | .waiting r | .relocked r => some r
  | _ => none

namespace CommHandler

/-- The requests of `t` that the comm thread has not received. -/
def outstanding (s : CommHandler τ) (t : τ) : List Wire :=
  ((pipe t s.connSock).map fun e => .conn e.1 e.2) ++ ((pipe t s.subpull).map .sub ++
    (pipe t s.pubstartPull).map .pubStart)

/-- The comm thread has processed the request of `t`: the router is connected and the hello loop is
over, or the connect failed and the comm thread is gone for that; the PUB socket is bound. -/
def Processed (s : CommHandler τ) (t : τ) : Request → Prop
  | .connect dest text =>
      (pipe t s.connSock = [] ∧ (∃ behind, (dest, cstr text behind) ∈ s.routerConns) ∧
        ∀ dest' rest, s.pc ≠ .hello t dest' rest) ∨ s.pc = .exited (.block .conn)
  | .pubStart text _ _ => pipe t s.pubstartPull = [] ∧ ∃ behind, cstr text behind ∈ s.pubBinds
  | .subscribe _ => True

/-- The next message on the SUB socket announces a publisher that is not in `publishermap`. -/
def NewPublisher (s : CommHandler τ) (behind : Bytes) (junk : Cliid) : Prop :=
  ∃ gid m q, s.subSock = (gid, m) :: q ∧
    (m.data ++ behind).take commHandlerPubInit.length = commHandlerPubInit ∧
    s.publishermap (pubId junk (cstr m.data behind)) = none

/-- The step of the comm thread executes `pthread_mutex_unlock(&sync_mtx)`, after the startup. -/
def Unlocks (s : CommHandler τ) : CommLabel τ → Prop
  | .hello ok => ok = true
  | .conn _ _ ok => ok = false
  | .recvFail => ∃ rest, s.pc = .blocks (.conn :: rest)
  | .pubStart _ _ ok => ok = true
  | .push _ => ∃ cid m rest, s.pc = .pushSuber cid m rest
  | .subSock behind junk _ => s.NewPublisher behind junk
  | _ => False

/-- The step of the comm thread completes the request `r` of `t`: the hello of its connection is
sent, its connect fails, its address is bound, or an announcement ends its subscription, whose
request has been received before. -/
def Completes (s : CommHandler τ) (l : CommLabel τ) (t : τ) (r : Request) : Prop :=
  match l with
  | .hello _ => ∃ dest rest text, s.pc = .hello t dest rest ∧ r = .connect dest text
  | .conn t' _ _ => t' = t ∧ s.outstanding t = [r.wire] ∧ ∃ dest text, r = .connect dest text
  | .recvFail => s.outstanding t = [r.wire] ∧ ∃ dest text, r = .connect dest text
  | .pubStart t' _ _ => t' = t ∧ s.outstanding t = [r.wire] ∧ ∃ text gid n, r = .pubStart text gid n
  | .subSock _ _ _ => s.outstanding t = [] ∧ ∃ text, r = .subscribe text
  | _ => False

/-- **Pairing of request and release.** -/
def ReleasesServed (s : CommHandler τ) : Label τ → Prop
  | .comm l => s.Unlocks l →
      ∃ t r, s.mtx = some (.app t) ∧ s.app t = .waiting r ∧ s.Completes l t r
  | .app t .relock => ∀ r, s.app t = .waiting r → s.Processed t r
  | _ => True

/-- No `sub_hello` is handed on by the router block, and the announcement of a new publisher is
handled only while a caller of `subscribe_to` whose request has been received holds the mutex. -/
def SubscriberWaits (s : CommHandler τ) : Label τ → Prop
  | .comm (.push _) => ∀ cid m rest, s.pc ≠ .pushSuber cid m rest
  | .comm (.subSock behind junk _) => s.NewPublisher behind junk →
      ∃ t text, s.mtx = some (.app t) ∧ s.app t = .waiting (.subscribe text) ∧
        s.outstanding t = []
  | _ => True

/-- `Unlocks` is what the model does: a step of the comm thread after the startup leaves the mutex
free if it unlocks, and alone if it does not. -/
theorem commStep_mtx {hwm : Nat} {s s' : CommHandler τ} {l : CommLabel τ}
    (h : s.commStep hwm l = some s') (hpc : ∀ st, s.pc ≠ .startup st) :
    (s.Unlocks l → s'.mtx = none) ∧ (¬ s.Unlocks l → s'.mtx = s.mtx) := by
  cases commTrans_of_commStep h with
  | startupNext h0 | startupDone h0 | startupFail h0 | startupSilent h0 => exact absurd h0 (hpc _)
  | recvFail h0 hb hs =>
      refine ⟨?_, fun _ => rfl⟩
      rintro ⟨rest, hrest⟩
      rw [h0] at hrest
      cases hrest
      exact absurd rfl hb
  | recvFailConn h0 => exact ⟨fun _ => rfl, fun hn => absurd ⟨_, h0⟩ hn⟩
  | pushTask h0 | pushTaskLost h0 =>
      refine ⟨?_, fun _ => rfl⟩
      rintro ⟨cid, m, rest, hrest⟩
      rw [h0] at hrest
      cases hrest
  | pushSuber h0 | pushSuberLost h0 => exact ⟨fun _ => rfl, fun hn => absurd ⟨_, _, _, h0⟩ hn⟩
  | subSockNew h0 hq hpub hpid hmap =>
      subst hpid
      exact ⟨fun _ => rfl, fun hn => absurd ⟨_, _, _, hq, hpub, hmap⟩ hn⟩
  | subSockOld h0 hq hpub hmap =>
      refine ⟨?_, fun _ => rfl⟩
      rintro ⟨gid, m, q, hq', -, hmap'⟩
      rw [hq] at hq'
      cases hq'
      exact absurd hmap' hmap
  | subSockTask h0 hq hpub =>
      refine ⟨?_, fun _ => rfl⟩
      rintro ⟨gid, m, q, hq', hpub', -⟩
      rw [hq] at hq'
      cases hq'
      exact absurd hpub' hpub
  | _ => simp [Unlocks, unlock, failed]

/-! ## The invariant -/

/-- At most one request is under way while the comm thread runs, and it is the one of the holder of
the mutex; a caller that waits without holding the mutex has been served. -/
structure Paired (s : CommHandler τ) : Prop where
  iterates : s.Iterates
  startup : s.StartupWaits
  polled : .conn ∈ s.pc.todo → s.connSock ≠ []
  ctorIdle : s.ctor ≠ .returned → ∀ t, s.app t = .idle
  ctorLock : s.ctor = .relocked → s.mtx = some .ctor
  appLock : ∀ t r, s.app t = .locked r ∨ s.app t = .relocked r → s.mtx = some (.app t)
  waits : ∀ t r, s.app t = .waiting r → s.mtx = some (.app t) ∨ s.Processed t r
  single : s.pc.gone = false → ∀ t, s.outstanding t = [] ∨
    ∃ r, s.app t = .waiting r ∧ s.outstanding t = [r.wire] ∧ s.mtx = some (.app t)
  hello : ∀ t dest rest, s.pc = .hello t dest rest → s.mtx = some (.app t) ∧
    s.outstanding t = [] ∧ ∃ text behind, s.app t = .waiting (.connect dest text) ∧
      (dest, cstr text behind) ∈ s.routerConns

/-- A mutex that thread `t` holds is held by no other. -/
theorem mtx_ne_of_ne {s : CommHandler τ} {t u : τ} (hm : s.mtx = some (.app t)) (hut : u ≠ t) :
    s.mtx ≠ some (.app u) := by
  intro hmu
  rw [hm] at hmu
  simp only [Option.some.injEq, Owner.app.injEq] at hmu
  exact hut hmu.symm

/-- What is outstanding while `t` holds the mutex is outstanding of `t`. -/
theorem Paired.outstanding_ne {s : CommHandler τ} (hs : s.Paired) (hrun : s.pc.gone = false) {t u : τ}
    (hm : s.mtx = some (.app t)) (hu : u ≠ t) : s.outstanding u = [] := by
  rcases hs.single hrun u with h | ⟨r, -, -, hmu⟩
  · exact h
  · exact absurd hmu (mtx_ne_of_ne hm hu)

/-- Nothing is outstanding while no caller holds the mutex. -/
theorem Paired.outstanding_of_mtx {s : CommHandler τ} (hs : s.Paired) (hrun : s.pc.gone = false)
    (hm : ∀ t, s.mtx ≠ some (.app t)) (u : τ) : s.outstanding u = [] := by
  rcases hs.single hrun u with h | ⟨r, -, -, hmu⟩
  · exact h
  · exact absurd hmu (hm u)

theorem outstanding_eq_nil {s : CommHandler τ} {t : τ} : s.outstanding t = [] ↔
    pipe t s.connSock = [] ∧ pipe t s.subpull = [] ∧ pipe t s.pubstartPull = [] := by
  simp [outstanding]

theorem outstanding_congr {s s' : CommHandler τ} (h1 : s'.connSock = s.connSock)
    (h2 : s'.subpull = s.subpull) (h3 : s'.pubstartPull = s.pubstartPull) (t : τ) :
    s'.outstanding t = s.outstanding t := by
  rw [outstanding, h1, h2, h3, outstanding]

theorem request_of_wire_conn {r : Request} {dest : Cliid} {text : Bytes}
    (h : r.wire = .conn dest text) : r = .connect dest text := by
  cases r <;> simp_all [Request.wire]

theorem request_of_wire_pubStart {r : Request} {text : Bytes} (h : r.wire = .pubStart text) :
    ∃ gid n, r = .pubStart text gid n := by
  cases r <;> simp_all [Request.wire]

/-- A request that has been processed stays processed. -/
theorem Processed.mono {s s' : CommHandler τ} {t : τ} {r : Request} (h : s.Processed t r)
    (hconn : pipe t s.connSock = [] → pipe t s'.connSock = [])
    (hpub : pipe t s.pubstartPull = [] → pipe t s'.pubstartPull = [])
    (hconns : s.routerConns ⊆ s'.routerConns) (hbinds : s.pubBinds ⊆ s'.pubBinds)
    (hpc : pipe t s.connSock = [] → (∀ dest rest, s.pc ≠ .hello t dest rest) →
      ∀ dest rest, s'.pc ≠ .hello t dest rest)
    (hexit : s.pc = .exited (.block .conn) → s'.pc = .exited (.block .conn)) : s'.Processed t r := by
  cases r with
  | connect dest text =>
      rcases h with ⟨h1, ⟨behind, h2⟩, h3⟩ | h
      · exact .inl ⟨hconn h1, ⟨behind, hconns h2⟩, hpc h1 h3⟩
      · exact .inr (hexit h)
  | pubStart text gid n =>
      obtain ⟨h1, behind, h2⟩ := h
      exact ⟨hpub h1, behind, hbinds h2⟩
  | subscribe text => trivial

theorem processed_congr {s s' : CommHandler τ} {t : τ} {r : Request}
    (h1 : s'.connSock = s.connSock) (h3 : s'.pubstartPull = s.pubstartPull)
    (h4 : s'.routerConns = s.routerConns) (h5 : s'.pubBinds = s.pubBinds) (hpc : s'.pc = s.pc) :
    s'.Processed t r ↔ s.Processed t r := by
  cases r <;> simp [Processed, h1, h3, h4, h5, hpc]

theorem paired_init (id : Cliid) (acceptConns : Bool) : (init τ id acceptConns).Paired where
  iterates := iterates_init id acceptConns
  startup := startupWaits_init id acceptConns
  polled h := by cases h
  ctorIdle _ _ := rfl
  ctorLock h := by cases h
  appLock _ _ h := by rcases h with h | h <;> cases h
  waits _ _ h := by cases h
  single _ _ := .inl rfl
  hello _ _ _ h := by cases h

/-! ## Steps of the application, the constructor and the network -/

/-- The two states agree on everything the pairing looks at but the mutex and the application. -/
structure SameRequests (s s' : CommHandler τ) : Prop where
  pc : s'.pc = s.pc
  ctor : s'.ctor = s.ctor
  connSock : s'.connSock = s.connSock
  subpull : s'.subpull = s.subpull
  pubstartPull : s'.pubstartPull = s.pubstartPull
  routerConns : s'.routerConns = s.routerConns
  pubBinds : s'.pubBinds = s.pubBinds

namespace SameRequests

theorem outstanding {s s' : CommHandler τ} (h : SameRequests s s') (t : τ) :
    s'.outstanding t = s.outstanding t :=
  outstanding_congr h.connSock h.subpull h.pubstartPull t

theorem processed {s s' : CommHandler τ} (h : SameRequests s s') {t : τ} {r : Request} :
    s'.Processed t r ↔ s.Processed t r :=
  processed_congr h.connSock h.pubstartPull h.routerConns h.pubBinds h.pc

end SameRequests

/-- The pc of another thread, and of `t` when it is not one of the three of a request. -/
theorem app_of_update {s s' : CommHandler τ} {t u : τ} {pc p : AppPc} {r : Request}
    (happ : s'.app = Function.update s.app t pc) (hpc : pc.request = none) (hp : p.request = some r)
    (hu : s'.app u = p) : u ≠ t ∧ s.app u = p := by
  rw [happ] at hu
  by_cases hut : u = t
  · subst hut
    rw [Function.update_self] at hu
    rw [hu, hp] at hpc
    cases hpc
  · rw [Function.update_of_ne hut] at hu
    exact ⟨hut, hu⟩

/-- Once the constructor has returned, the two fields about it ask for nothing. -/
theorem Paired.of_returned {s : CommHandler τ} (hret : s.ctor = .returned) (hit : s.Iterates)
    (hst : s.StartupWaits) (hpolled : .conn ∈ s.pc.todo → s.connSock ≠ [])
    (hlock : ∀ t r, s.app t = .locked r ∨ s.app t = .relocked r → s.mtx = some (.app t))
    (hwaits : ∀ t r, s.app t = .waiting r → s.mtx = some (.app t) ∨ s.Processed t r)
    (hsingle : s.pc.gone = false → ∀ t, s.outstanding t = [] ∨
      ∃ r, s.app t = .waiting r ∧ s.outstanding t = [r.wire] ∧ s.mtx = some (.app t))
    (hhello : ∀ t dest rest, s.pc = .hello t dest rest → s.mtx = some (.app t) ∧
      s.outstanding t = [] ∧ ∃ text behind, s.app t = .waiting (.connect dest text) ∧
        (dest, cstr text behind) ∈ s.routerConns) : s.Paired := by
  refine ⟨hit, hst, hpolled, ?_, ?_, hlock, hwaits, hsingle, hhello⟩
  · intro hc
    exact absurd hret hc
  · intro hc
    rw [hret] at hc
    cases hc

/-- A step of `t` outside the two locks of a request. -/
theorem paired_app_other {s s' : CommHandler τ} {t : τ} {pc : AppPc} (hs : s.Paired)
    (hit : s'.Iterates) (hst : s'.StartupWaits) (hret : s.ctor = .returned)
    (hsame : SameRequests s s') (hmtx : s'.mtx = s.mtx)
    (happ : s'.app = Function.update s.app t pc) (hold : (s.app t).request = none)
    (hnew : pc.request = none) : s'.Paired := by
  have hkeep : ∀ u r, s.app u = .waiting r → s'.app u = .waiting r := by
    intro u r hu
    have hut : u ≠ t := by
      rintro rfl
      rw [hu] at hold
      cases hold
    rw [happ, Function.update_of_ne hut, hu]
  refine .of_returned (hsame.ctor.trans hret) hit hst ?_ ?_ ?_ ?_ ?_
  · rw [hsame.pc, hsame.connSock]
    exact hs.polled
  · intro u r hu
    rw [hmtx]
    refine hs.appLock u r (hu.imp ?_ ?_)
    · exact fun hu => (app_of_update happ hnew rfl hu).2
    · exact fun hu => (app_of_update happ hnew rfl hu).2
  · intro u r hu
    rw [hmtx, hsame.processed]
    exact hs.waits u r (app_of_update happ hnew rfl hu).2
  · intro hrun u
    rw [hsame.pc] at hrun
    rw [hsame.outstanding u, hmtx]
    refine (hs.single hrun u).imp_right ?_
    rintro ⟨r, hu, hw, hm⟩
    exact ⟨r, hkeep u r hu, hw, hm⟩
  · intro u dest rest hu
    rw [hsame.pc] at hu
    obtain ⟨hm, ho, text, behind, hw, hmem⟩ := hs.hello u dest rest hu
    rw [hmtx, hsame.outstanding u, hsame.routerConns]
    exact ⟨hm, ho, text, behind, hkeep u _ hw, hmem⟩

/-- One of the two locks of a request: the mutex was free, so no request is under way. -/
theorem paired_app_lock {s s' : CommHandler τ} {t : τ} {pc : AppPc} {r : Request} (hs : s.Paired)
    (hit : s'.Iterates) (hst : s'.StartupWaits) (hret : s.ctor = .returned)
    (hsame : SameRequests s s') (hfree : s.mtx = none) (hmtx : s'.mtx = some (.app t))
    (happ : s'.app = Function.update s.app t pc) (hpc : pc = .locked r ∨ pc = .relocked r) :
    s'.Paired := by
  have hfree' : ∀ u, s.mtx ≠ some (.app u) := by
    intro u hu
    rw [hfree] at hu
    cases hu
  refine .of_returned (hsame.ctor.trans hret) hit hst ?_ ?_ ?_ ?_ ?_
  · rw [hsame.pc, hsame.connSock]
    exact hs.polled
  · intro u r' hu
    by_cases hut : u = t
    · rw [hut, hmtx]
    · rw [happ, Function.update_of_ne hut] at hu
      exact absurd (hs.appLock u r' hu) (hfree' u)
  · intro u r' hu
    have hut : u ≠ t := by
      rintro rfl
      rw [happ, Function.update_self] at hu
      rcases hpc with rfl | rfl <;> cases hu
    rw [happ, Function.update_of_ne hut] at hu
    exact .inr (hsame.processed.mpr ((hs.waits u r' hu).resolve_left (hfree' u)))
  · intro hrun u
    rw [hsame.pc] at hrun
    exact .inl ((hsame.outstanding u).trans (hs.outstanding_of_mtx hrun hfree' u))
  · intro u dest rest hu
    rw [hsame.pc] at hu
    exact absurd (hs.hello u dest rest hu).1 (hfree' u)

/-- An unlock by `t`, which holds the mutex and has no request under way. -/
theorem paired_app_unlock {s s' : CommHandler τ} {t : τ} {pc : AppPc} {r : Request} (hs : s.Paired)
    (hit : s'.Iterates) (hst : s'.StartupWaits) (hret : s.ctor = .returned)
    (hsame : SameRequests s s') (hold : s.app t = .locked r ∨ s.app t = .relocked r)
    (happ : s'.app = Function.update s.app t pc) (hnew : pc.request = none) : s'.Paired := by
  have hm : s.mtx = some (.app t) := hs.appLock t r hold
  have hnw : ∀ r', s.app t ≠ .waiting r' := by
    intro r' hw
    rw [hw] at hold
    rcases hold with h | h <;> cases h
  have hne : ∀ u, u ≠ t → s.mtx ≠ some (.app u) := fun u hut => mtx_ne_of_ne hm hut
  refine .of_returned (hsame.ctor.trans hret) hit hst ?_ ?_ ?_ ?_ ?_
  · rw [hsame.pc, hsame.connSock]
    exact hs.polled
  · intro u r' hu
    have hcase : u ≠ t ∧ (s.app u = .locked r' ∨ s.app u = .relocked r') := by
      rcases hu with hu | hu
      · exact (app_of_update happ hnew rfl hu).imp_right .inl
      · exact (app_of_update happ hnew rfl hu).imp_right .inr
    exact absurd (hs.appLock u r' hcase.2) (hne u hcase.1)
  · intro u r' hu
    obtain ⟨hut, hu⟩ := app_of_update happ hnew rfl hu
    exact .inr (hsame.processed.mpr ((hs.waits u r' hu).resolve_left (hne u hut)))
  · intro hrun u
    rw [hsame.pc] at hrun
    refine .inl ((hsame.outstanding u).trans ?_)
    rcases hs.single hrun u with h | ⟨r', hw, -, hmu⟩
    · exact h
    · by_cases hut : u = t
      · exact absurd (hut ▸ hw) (hnw r')
      · exact absurd hmu (hne u hut)
  · intro u dest rest hu
    rw [hsame.pc] at hu
    obtain ⟨hmu, -, text, behind, hw, -⟩ := hs.hello u dest rest hu
    by_cases hut : u = t
    · exact absurd (hut ▸ hw) (hnw _)
    · exact absurd hmu (hne u hut)

theorem outstanding_enqueue_ne (s : CommHandler τ) {t u : τ} (h : u ≠ t) (r : Request) :
    (s.enqueue t r).outstanding u = s.outstanding u := by
  cases r <;> simp [outstanding, enqueue, Ne.symm h]

theorem outstanding_enqueue_self {s : CommHandler τ} {t : τ} (h : s.outstanding t = [])
    (r : Request) : (s.enqueue t r).outstanding t = [r.wire] := by
  obtain ⟨h1, h2, h3⟩ := outstanding_eq_nil.mp h
  cases r <;> simp [outstanding, enqueue, h1, h2, h3, Request.wire]

/-- The send of a request by `t`, which holds the mutex. -/
theorem paired_app_sendReq {s : CommHandler τ} {t : τ} {r : Request} (hs : s.Paired)
    (hit : ((s.enqueue t r).goto t (.waiting r)).Iterates)
    (hst : ((s.enqueue t r).goto t (.waiting r)).StartupWaits) (hret : s.ctor = .returned)
    (hold : s.app t = .locked r) : ((s.enqueue t r).goto t (.waiting r)).Paired := by
  have hm : s.mtx = some (.app t) := hs.appLock t r (.inl hold)
  have hframe : (s.enqueue t r).pc = s.pc ∧ (s.enqueue t r).ctor = s.ctor ∧
      (s.enqueue t r).mtx = s.mtx ∧ (s.enqueue t r).app = s.app ∧
      (s.enqueue t r).routerConns = s.routerConns ∧ (s.enqueue t r).pubBinds = s.pubBinds := by
    cases r <;> exact ⟨rfl, rfl, rfl, rfl, rfl, rfl⟩
  obtain ⟨hpc, hctor, hmtx, happ, hconns, hbinds⟩ := hframe
  have hne : ∀ u, u ≠ t → s.mtx ≠ some (.app u) := fun u hut => mtx_ne_of_ne hm hut
  have happ' : ((s.enqueue t r).goto t (.waiting r)).app = Function.update s.app t (.waiting r) := by
    simp [goto, happ]
  refine .of_returned (hctor.trans hret) hit hst ?_ ?_ ?_ ?_ ?_
  · intro hmem
    have hne' : s.connSock ≠ [] := hs.polled (by simpa [goto, hpc] using hmem)
    cases r <;> simp [goto, enqueue, hne']
  · intro u r' hu
    have hut : u ≠ t := by
      rintro rfl
      rw [happ', Function.update_self] at hu
      rcases hu with hu | hu <;> cases hu
    rw [happ', Function.update_of_ne hut] at hu
    exact absurd (hs.appLock u r' hu) (hne u hut)
  · intro u r' hu
    by_cases hut : u = t
    · exact .inl (by rw [hut]; exact hmtx.trans hm)
    · rw [happ', Function.update_of_ne hut] at hu
      refine .inr (((hs.waits u r' hu).resolve_left (hne u hut)).mono ?_ ?_ ?_ ?_ ?_ ?_)
      · cases r <;> simp [goto, enqueue, Ne.symm hut]
      · cases r <;> simp [goto, enqueue, Ne.symm hut]
      · exact fun e he => by rwa [goto, hconns]
      · exact fun e he => by rwa [goto, hbinds]
      · exact fun _ h => hpc.symm ▸ h
      · exact fun h => hpc.trans h
  · intro hrun u
    have hrun : s.pc.gone = false := hpc ▸ hrun
    have hout : s.outstanding t = [] := by
      refine (hs.single hrun t).resolve_right ?_
      rintro ⟨r', hw, -⟩
      rw [hold] at hw
      cases hw
    by_cases hut : u = t
    · subst hut
      exact .inr ⟨r, by rw [happ', Function.update_self], outstanding_enqueue_self hout r,
        hmtx.trans hm⟩
    · exact .inl ((outstanding_enqueue_ne s hut r).trans (hs.outstanding_ne hrun hm hut))
  · intro u dest rest hu
    obtain ⟨hmu, -, text, behind, hw, -⟩ := hs.hello u dest rest (hpc.symm.trans hu)
    by_cases hut : u = t
    · rw [hut, hold] at hw
      cases hw
    · exact absurd hmu (hne u hut)

theorem paired_appStep {s s' : CommHandler τ} {t : τ} {l : AppLabel} (hs : s.Paired)
    (hit : s'.Iterates) (hst : s'.StartupWaits) (hret : s.ctor = .returned)
    (h : s.appStep t l = some s') : s'.Paired := by
  obtain ⟨pullers, hattach⟩ := attachTask_eq s t
  cases appTrans_of_appStep h with
  | lock hpc hm =>
      exact paired_app_lock hs hit hst hret ⟨rfl, rfl, rfl, rfl, rfl, rfl, rfl⟩ hm rfl rfl (.inl rfl)
  | relock hpc hm =>
      exact paired_app_lock hs hit hst hret ⟨rfl, rfl, rfl, rfl, rfl, rfl, rfl⟩ hm rfl rfl (.inr rfl)
  | sendReq hpc => exact paired_app_sendReq hs hit hst hret hpc
  | sendReqFail hpc =>
      exact paired_app_unlock hs hit hst hret ⟨rfl, rfl, rfl, rfl, rfl, rfl, rfl⟩ (.inl hpc) rfl rfl
  | unlock hpc =>
      rename_i r
      cases r <;>
        exact paired_app_unlock hs hit hst hret ⟨rfl, rfl, rfl, rfl, rfl, rfl, rfl⟩ (.inr hpc) rfl rfl
  | recv hpc | recvAsync hpc | recvAsyncEmpty hpc | recvAsyncNone hpc =>
      rw [hattach] at hit hst ⊢
      exact paired_app_other hs hit hst hret ⟨rfl, rfl, rfl, rfl, rfl, rfl, rfl⟩ rfl rfl
        (by rw [hpc]; rfl) rfl
  | reject hpc | call hpc | announceStart hpc | announce hpc | announced hpc | announcedFail hpc
  | announceEnd hpc | drain hpc | drainEmpty hpc | drainEnd hpc | publish hpc | send hpc
  | recvDone hpc | getOneConnection hpc | pop hpc | shutdown hpc | join hpc | test hpc =>
      exact paired_app_other hs hit hst hret ⟨rfl, rfl, rfl, rfl, rfl, rfl, rfl⟩ rfl rfl
        (by rw [hpc]; rfl) rfl

theorem paired_ctorStep {s s' : CommHandler τ} {l : CtorLabel} (hs : s.Paired)
    (hit : s'.Iterates) (hst : s'.StartupWaits) (h : s.ctorStep l = some s') : s'.Paired := by
  have hcase : s.ctor ≠ .returned ∧ (∀ t, s.mtx ≠ some (.app t)) ∧
      SameRequests { s with ctor := s'.ctor } s' ∧ s'.app = s.app ∧
      (s'.ctor = .relocked → s'.mtx = some .ctor) := by
    rcases ctorStep_eq_some h with ⟨hc, hm, rfl⟩ | ⟨hc, rfl⟩
    · refine ⟨by simp [hc], by simp [hm], ⟨rfl, rfl, rfl, rfl, rfl, rfl, rfl⟩, rfl, fun _ => rfl⟩
    · have hm := hs.ctorLock hc
      refine ⟨by simp [hc], by simp [hm], ⟨rfl, rfl, rfl, rfl, rfl, rfl, rfl⟩, rfl, ?_⟩
      by_cases he : s.errcode = 0 <;> simp [he]
  obtain ⟨hc, hm, hsame, happ, hlock⟩ := hcase
  have hidle := hs.ctorIdle hc
  refine ⟨hit, hst, by rw [hsame.pc, hsame.connSock]; exact hs.polled, ?_, hlock, ?_, ?_, ?_, ?_⟩
  · exact fun _ => happ ▸ hidle
  · intro t r ht
    rw [happ, hidle t] at ht
    rcases ht with ht | ht <;> cases ht
  · intro t r ht
    rw [happ, hidle t] at ht
    cases ht
  · intro hrun t
    rw [hsame.pc] at hrun
    exact .inl ((hsame.outstanding t).trans (hs.outstanding_of_mtx hrun hm t))
  · intro t dest rest ht
    rw [hsame.pc] at ht
    exact absurd (hs.hello t dest rest ht).1 (hm t)

theorem paired_envStep {s : CommHandler τ} (hs : s.Paired) (l : EnvLabel τ) :
    (s.envStep l).Paired := by
  cases l <;>
    exact ⟨⟨hs.iterates.order, hs.iterates.first, hs.iterates.called⟩, hs.startup, hs.polled,
      hs.ctorIdle, hs.ctorLock, hs.appLock, hs.waits, hs.single, hs.hello⟩

/-! ## Steps of the comm thread -/

/-- A step receives the request `w` of `t` and nothing else. -/
structure Takes (s s' : CommHandler τ) (t : τ) (w : Wire) : Prop where
  self : (s.outstanding t).Perm (w :: s'.outstanding t)
  other : ∀ u, u ≠ t → s'.outstanding u = s.outstanding u

theorem takes_conn {s s' : CommHandler τ} {t : τ} {dest : Cliid} {text : Bytes}
    {q : List (τ × Cliid × Bytes)} (hpop : pop t s.connSock = some ((dest, text), q))
    (h1 : s'.connSock = q) (h2 : s'.subpull = s.subpull) (h3 : s'.pubstartPull = s.pubstartPull) :
    Takes s s' t (.conn dest text) where
  self := by simp [outstanding, h1, h2, h3, pop_pipe hpop]
  other u hu := by simp [outstanding, h1, h2, h3, pop_pipe_ne hu hpop]

theorem takes_sub {s s' : CommHandler τ} {t : τ} {text : Bytes} {q : List (τ × Bytes)}
    (hpop : pop t s.subpull = some (text, q)) (h1 : s'.connSock = s.connSock)
    (h2 : s'.subpull = q) (h3 : s'.pubstartPull = s.pubstartPull) : Takes s s' t (.sub text) where
  self := by
    simp only [outstanding, h1, h2, h3, pop_pipe hpop, List.map_cons, List.cons_append]
    exact List.perm_middle
  other u hu := by simp [outstanding, h1, h2, h3, pop_pipe_ne hu hpop]

theorem takes_pubStart {s s' : CommHandler τ} {t : τ} {text : Bytes} {q : List (τ × Bytes)}
    (hpop : pop t s.pubstartPull = some (text, q)) (h1 : s'.connSock = s.connSock)
    (h2 : s'.subpull = s.subpull) (h3 : s'.pubstartPull = q) : Takes s s' t (.pubStart text) where
  self := by
    simp only [outstanding, h1, h2, h3, pop_pipe hpop, List.map_cons, ← List.append_assoc]
    exact List.perm_middle
  other u hu := by simp [outstanding, h1, h2, h3, pop_pipe_ne hu hpop]

/-- The request received is the one of the holder, and none is left. -/
theorem Paired.of_takes {s s' : CommHandler τ} (hs : s.Paired) (hrun : s.pc.gone = false) {t : τ}
    {w : Wire} (h : Takes s s' t w) :
    s.mtx = some (.app t) ∧ s.outstanding t = [w] ∧ (∀ u, s'.outstanding u = []) ∧
      ∃ r, s.app t = .waiting r ∧ r.wire = w := by
  rcases hs.single hrun t with h0 | ⟨r, happ, hw, hm⟩
  · have hlen := h.self.length_eq
    simp [h0] at hlen
  · have hperm := h.self
    rw [hw, List.singleton_perm] at hperm
    simp only [List.cons.injEq] at hperm
    refine ⟨hm, by rw [hw, hperm.1], ?_, r, happ, hperm.1⟩
    intro u
    by_cases hu : u = t
    · rw [hu, hperm.2]
    · rw [h.other u hu]
      exact hs.outstanding_ne hrun hm hu

theorem Paired.outstanding_of_popSub {s : CommHandler τ} (hs : s.Paired) (hrun : s.pc.gone = false)
    {t : τ} {text : Bytes} {q : List (τ × Bytes)} (hpop : pop t s.subpull = some (text, q)) (u : τ) :
    ({ s with subpull := q } : CommHandler τ).outstanding u = [] := by
  have htakes : Takes s { s with subpull := q } t (.sub text) := takes_sub hpop rfl rfl rfl
  exact (hs.of_takes hrun htakes).2.2.1 u

/-- What the comm thread must respect: it leaves the application and the constructor alone, receives
requests and never makes them, and keeps the mutex or hands it back for a caller it has served. -/
structure Serves (s s' : CommHandler τ) : Prop where
  app : s'.app = s.app
  ctor : s'.ctor = s.ctor
  conn : ∀ u, pipe u s.connSock = [] → pipe u s'.connSock = []
  pub : ∀ u, pipe u s.pubstartPull = [] → pipe u s'.pubstartPull = []
  conns : s.routerConns ⊆ s'.routerConns
  binds : s.pubBinds ⊆ s'.pubBinds
  mtx : s'.mtx = s.mtx ∨ ∃ t r, s.mtx = some (.app t) ∧ s.app t = .waiting r ∧ s'.mtx = none ∧
    s'.Processed t r
  single : s'.pc.gone = false → ∀ u, s'.outstanding u = [] ∨
    s'.outstanding u = s.outstanding u ∧ s'.mtx = s.mtx
  hello : ∀ u dest rest, s'.pc = .hello u dest rest → pipe u s.connSock ≠ [] ∧
    s'.mtx = some (.app u) ∧ s'.outstanding u = [] ∧ ∃ text behind,
      s'.app u = .waiting (.connect dest text) ∧ (dest, cstr text behind) ∈ s'.routerConns

theorem Serves.paired {s s' : CommHandler τ} (h : Serves s s') (hs : s.Paired) (hit : s'.Iterates)
    (hst : s'.StartupWaits) (hpolled : .conn ∈ s'.pc.todo → s'.connSock ≠ [])
    (hrun : s.pc.gone = false) : s'.Paired := by
  have hmono : ∀ u r, s.Processed u r → s'.Processed u r := by
    intro u r hp
    refine hp.mono (h.conn u) (h.pub u) h.conns h.binds ?_ ?_
    · intro hnil _ dest rest hu
      exact (h.hello u dest rest hu).1 hnil
    · intro hex
      rw [hex] at hrun
      cases hrun
  have hexcl : ∀ t r, s.mtx = some (.app t) → s.app t = .waiting r →
      s.ctor ≠ .relocked ∧ ∀ u r', ¬ (s.app u = .locked r' ∨ s.app u = .relocked r') := by
    intro t r hm hw
    refine ⟨?_, ?_⟩
    · intro hc
      rw [hs.ctorLock hc] at hm
      cases hm
    · intro u r' hu
      have hmu := hs.appLock u r' hu
      rw [hm] at hmu
      cases hmu
      rw [hw] at hu
      rcases hu with hu | hu <;> cases hu
  refine ⟨hit, hst, hpolled, ?_, ?_, ?_, ?_, ?_, ?_⟩
  · rw [h.ctor, h.app]
    exact hs.ctorIdle
  · rw [h.ctor]
    rcases h.mtx with hm | ⟨t, r, hm, hw, -, -⟩
    · rw [hm]
      exact hs.ctorLock
    · exact fun hc => absurd hc (hexcl t r hm hw).1
  · rw [h.app]
    rcases h.mtx with hm | ⟨t, r, hm, hw, -, -⟩
    · rw [hm]
      exact hs.appLock
    · exact fun u r' hu => absurd hu ((hexcl t r hm hw).2 u r')
  · intro u r hu
    rw [h.app] at hu
    rcases h.mtx with hm | ⟨t, r', hm, hw, -, hp⟩
    · rw [hm]
      exact (hs.waits u r hu).imp_right (hmono u r)
    · refine .inr ?_
      rcases hs.waits u r hu with hmu | hpu
      · rw [hm] at hmu
        cases hmu
        rw [hw] at hu
        cases hu
        exact hp
      · exact hmono u r hpu
  · intro hrun' u
    rcases h.single hrun' u with ho | ⟨ho, hm⟩
    · exact .inl ho
    · rw [ho, hm, h.app]
      exact hs.single hrun u
  · intro u dest rest hu
    exact (h.hello u dest rest hu).2

/-- A step that has nothing to do with requests. -/
theorem serves_quiet {s s' : CommHandler τ} (happ : s'.app = s.app) (hctor : s'.ctor = s.ctor)
    (h1 : s'.connSock = s.connSock) (h2 : s'.subpull = s.subpull)
    (h3 : s'.pubstartPull = s.pubstartPull) (h4 : s'.routerConns = s.routerConns)
    (h5 : s'.pubBinds = s.pubBinds) (hm : s'.mtx = s.mtx)
    (hpc : ∀ u dest rest, s'.pc ≠ .hello u dest rest) : Serves s s' where
  app := happ
  ctor := hctor
  conn _ h := h1 ▸ h
  pub _ h := h3 ▸ h
  conns := fun _ he => h4 ▸ he
  binds := fun _ he => h5 ▸ he
  mtx := .inl hm
  single _ u := .inr ⟨outstanding_congr h1 h2 h3 u, hm⟩
  hello u dest rest hu := absurd hu (hpc u dest rest)

/-- A step that releases a caller it has served, when no request is left. -/
theorem serves_release {s s' : CommHandler τ} {t : τ} {r : Request} (happ : s'.app = s.app)
    (hctor : s'.ctor = s.ctor) (h1 : ∀ u, pipe u s.connSock = [] → pipe u s'.connSock = [])
    (h3 : ∀ u, pipe u s.pubstartPull = [] → pipe u s'.pubstartPull = [])
    (h4 : s'.routerConns = s.routerConns) (h5 : s.pubBinds ⊆ s'.pubBinds)
    (hm : s.mtx = some (.app t)) (hw : s.app t = .waiting r) (hm' : s'.mtx = none)
    (hp : s'.Processed t r) (hout : s'.pc.gone = false → ∀ u, s'.outstanding u = [])
    (hpc : ∀ u dest rest, s'.pc ≠ .hello u dest rest) : Serves s s' where
  app := happ
  ctor := hctor
  conn := h1
  pub := h3
  conns := fun _ he => h4 ▸ he
  binds := h5
  mtx := .inr ⟨t, r, hm, hw, hm', hp⟩
  single hrun u := .inl (hout hrun u)
  hello u dest rest hu := absurd hu (hpc u dest rest)

/-- A step that receives a request and keeps the mutex. -/
theorem serves_receive {s s' : CommHandler τ} (happ : s'.app = s.app) (hctor : s'.ctor = s.ctor)
    (h1 : ∀ u, pipe u s.connSock = [] → pipe u s'.connSock = [])
    (h3 : ∀ u, pipe u s.pubstartPull = [] → pipe u s'.pubstartPull = [])
    (h4 : s'.routerConns = s.routerConns) (h5 : s'.pubBinds = s.pubBinds) (hm : s'.mtx = s.mtx)
    (hout : ∀ u, s'.outstanding u = []) (hpc : ∀ u dest rest, s'.pc ≠ .hello u dest rest) :
    Serves s s' where
  app := happ
  ctor := hctor
  conn := h1
  pub := h3
  conns := fun _ he => h4 ▸ he
  binds := fun _ he => h5 ▸ he
  mtx := .inl hm
  single _ u := .inl (hout u)
  hello u dest rest hu := absurd hu (hpc u dest rest)

/-- The comm thread, when it does not take one of the two network-driven branches out of turn: it
serves, or it tries the hello once more. -/
theorem serves_of_commStep {hwm : Nat} {s s' : CommHandler τ} {l : CommLabel τ} (hs : s.Paired)
    (hst : ∀ st, s.pc ≠ .startup st) (hok : s.SubscriberWaits (.comm l))
    (h : s.commStep hwm l = some s') : s' = s ∨ Serves s s' := by
  have hrun : s.pc.gone = false := by
    by_contra hg
    rw [commStep_of_gone (by simpa using hg)] at h
    cases h
  cases commTrans_of_commStep h with
  | startupNext hpc | startupDone hpc | startupFail hpc | startupSilent hpc =>
      exact absurd hpc (hst _)
  | helloRetry hpc => exact .inl rfl
  | conn hpc hpop =>
      rename_i rest t behind dest text q
      have htakes : Takes s { s with connSock := q } t (.conn dest text) := takes_conn hpop rfl rfl rfl
      obtain ⟨hm, -, hout, r, hw, hr⟩ := hs.of_takes hrun htakes
      obtain rfl := request_of_wire_conn hr
      refine .inr ⟨rfl, rfl, fun u => pipe_eq_nil_of_pop hpop, fun _ h => h, ?_, fun _ h => h, .inl rfl,
        fun _ u => .inl (hout u), ?_⟩
      · exact List.subset_append_left _ _
      · intro u dest' rest' hu
        cases hu
        refine ⟨by simp [pop_pipe hpop], hm, hout t, text, behind, hw, ?_⟩
        exact List.mem_append_right _ List.mem_cons_self
  | connFail hpc hpop =>
      rename_i rest t behind dest text q
      have htakes : Takes s { s with connSock := q } t (.conn dest text) := takes_conn hpop rfl rfl rfl
      obtain ⟨hm, -, hout, r, hw, hr⟩ := hs.of_takes hrun htakes
      obtain rfl := request_of_wire_conn hr
      exact .inr (serves_release rfl rfl (fun u => pipe_eq_nil_of_pop hpop) (fun _ h => h) rfl
        (fun _ h => h) hm hw rfl (.inr rfl) (fun _ => hout) (by simp [failed, unlock]))
  | recvFailConn hpc =>
      -- the poll saw a request on `conn_sock`, so some caller waits for it
      have hne : s.connSock ≠ [] := hs.polled (by simp [hpc, CommPc.todo])
      obtain ⟨⟨t, dest, text⟩, q, hq⟩ := List.exists_cons_of_ne_nil hne
      have hpop : pop t s.connSock = some ((dest, text), q) := by simp [hq, pop]
      have htakes : Takes s { s with connSock := q } t (.conn dest text) := takes_conn hpop rfl rfl rfl
      obtain ⟨hm, -, hout, r, hw, hr⟩ := hs.of_takes hrun htakes
      obtain rfl := request_of_wire_conn hr
      exact .inr (serves_release rfl rfl (fun _ h => h) (fun _ h => h) rfl (fun _ h => h) hm hw rfl
        (.inr rfl) (by simp [failed, unlock, CommPc.gone]) (by simp [failed, unlock]))
  | hello hpc hpeer =>
      rename_i t dest rest
      obtain ⟨hm, hout, text, behind, hw, hmem⟩ := hs.hello t dest rest hpc
      have hall : ∀ u, s.outstanding u = [] := by
        intro u
        by_cases hu : u = t
        · rw [hu, hout]
        · exact hs.outstanding_ne hrun hm hu
      refine .inr (serves_release rfl rfl (fun _ h => h) (fun _ h => h) rfl (fun _ h => h) hm hw rfl
        (.inl ⟨(outstanding_eq_nil.mp hout).1, ⟨behind, hmem⟩, ?_⟩) (fun _ => hall) ?_)
      · simp [unlock]
      · simp [unlock]
  | sub hpc hpop | subSpin hpc hpop | subConnFail hpc hpop | subSetFail hpc hpop =>
      exact .inr (serves_receive rfl rfl (fun _ h => h) (fun _ h => h) rfl rfl rfl
        (hs.outstanding_of_popSub hrun hpop) (by simp [failed]))
  | subSockNew hpc hq hpub hpid hmap =>
      subst hpid
      obtain ⟨t, text, hm, hw, hout⟩ := hok ⟨_, _, _, hq, hpub, hmap⟩
      have hall : ∀ u, s.outstanding u = [] := by
        intro u
        by_cases hu : u = t
        · rw [hu, hout]
        · exact hs.outstanding_ne hrun hm hu
      exact .inr (serves_release rfl rfl (fun _ h => h) (fun _ h => h) rfl (fun _ h => h) hm hw rfl
        trivial (fun _ => hall) (by simp [unlock]))
  | pubStart hpc hpop =>
      rename_i rest t behind text q
      have htakes : Takes s { s with pubstartPull := q } t (.pubStart text) :=
        takes_pubStart hpop rfl rfl rfl
      obtain ⟨hm, -, hout, r, hw, hr⟩ := hs.of_takes hrun htakes
      obtain ⟨gid, n, rfl⟩ := request_of_wire_pubStart hr
      refine .inr (serves_release rfl rfl (fun _ h => h) (fun u => pipe_eq_nil_of_pop hpop) rfl ?_ hm hw
        rfl ⟨(outstanding_eq_nil.mp (hout t)).2.2, behind, ?_⟩ (fun _ => hout) (by simp [unlock]))
      · exact List.subset_append_left _ _
      · exact List.mem_append_right _ List.mem_cons_self
  | pubStartFail hpc hpop =>
      rename_i rest t behind text q
      have htakes : Takes s { s with pubstartPull := q } t (.pubStart text) :=
        takes_pubStart hpop rfl rfl rfl
      obtain ⟨-, -, hout, -⟩ := hs.of_takes hrun htakes
      exact .inr (serves_receive rfl rfl (fun _ h => h) (fun u => pipe_eq_nil_of_pop hpop) rfl rfl rfl
        hout (by simp [failed]))
  | pushSuber hpc | pushSuberLost hpc => exact absurd hpc (hok _ _ _)
  | poll | pollFail | recvFail | msgqSent | msgqLost | routerSuber | routerClient | routerTask
  | monitorOk | monitorFail | monitorAbort | pubSend | pubSendFail | subSockOld | subSockTask
  | shutdown | pushTask | pushTaskLost =>
      exact .inr (serves_quiet rfl rfl rfl rfl rfl rfl rfl rfl (by simp [failed]))

theorem commStep_connSock {hwm : Nat} {s s' : CommHandler τ} {l : CommLabel τ}
    (h : s.commStep hwm l = some s') :
    s'.connSock = s.connSock ∨ ∃ rest, s.pc = .blocks (.conn :: rest) := by
  cases commTrans_of_commStep h with
  | conn hpc | connFail hpc => exact .inr ⟨_, hpc⟩
  | _ => exact .inl rfl

/-- The block of `conn_sock` is only to be served when a request waits there. -/
theorem polled_commStep {hwm : Nat} {s s' : CommHandler τ} {l : CommLabel τ} (hs : s.Paired)
    (h : s.commStep hwm l = some s') : .conn ∈ s'.pc.todo → s'.connSock ≠ [] := by
  intro hmem
  cases advance_of_commStep h with
  | poll hpc hpc' =>
      rw [hpc'] at hmem
      have hready : s.ready .conn = true := (List.mem_filter.mp hmem).2
      rcases commStep_connSock h with hq | ⟨rest, hrest⟩
      · rw [hq]
        simpa [ready] using hready
      · rw [hpc] at hrest
        cases hrest
  | next hpc hb hl hpc' =>
      rename_i b
      have hnodup : (b :: s'.pc.todo).Nodup := by
        have horder := hs.iterates.order
        rw [hpc] at horder
        exact horder.nodup (by decide)
      have hold : s.connSock ≠ [] := hs.polled (by rw [hpc]; exact List.mem_cons_of_mem _ hmem)
      rcases commStep_connSock h with hq | ⟨rest, hrest⟩
      · rwa [hq]
      · rw [hpc] at hrest
        simp only [CommPc.blocks.injEq, List.cons.injEq] at hrest
        obtain ⟨rfl, -⟩ := hrest
        exact absurd hmem (List.nodup_cons.mp hnodup).1
  | stay hpc htodo hpc' =>
      have hold : s.connSock ≠ [] := hs.polled (htodo ▸ hmem)
      rcases commStep_connSock h with hq | ⟨rest, hrest⟩
      · rwa [hq]
      · exact absurd hrest (hpc _)
  | shutdown hpc hpc' =>
      rw [hpc'] at hmem
      cases hmem
  | gone hpc' hne =>
      rw [todo_of_gone hpc'] at hmem
      cases hmem

/-- The startup hands the mutex of the constructor back; no caller exists yet. -/
theorem paired_startup {hwm : Nat} {s s' : CommHandler τ} {l : CommLabel τ} {st : Startup}
    (hs : s.Paired) (hit : s'.Iterates) (hst : s'.StartupWaits) (hpc : s.pc = .startup st)
    (h : s.commStep hwm l = some s') : s'.Paired := by
  obtain ⟨-, hctor, hm⟩ := hs.startup st hpc
  have hidle : ∀ t, s.app t = .idle := hs.ctorIdle (by simp [hctor])
  have hrun : s.pc.gone = false := by
    rw [hpc]
    rfl
  have hnone : ∀ t, s.outstanding t = [] := hs.outstanding_of_mtx hrun (by simp [hm])
  have hframe : s'.app = s.app ∧ s'.ctor = s.ctor ∧ s'.connSock = s.connSock ∧
      s'.subpull = s.subpull ∧ s'.pubstartPull = s.pubstartPull ∧
      ∀ t dest rest, s'.pc ≠ .hello t dest rest := by
    cases commTrans_of_commStep h with
    | startupNext | startupDone | startupFail | startupSilent =>
        exact ⟨rfl, rfl, rfl, rfl, rfl, by simp [unlock, failed]⟩
    | _ => simp_all
  obtain ⟨happ, hctor', h1, h2, h3, hno⟩ := hframe
  refine ⟨hit, hst, polled_commStep hs h, ?_, ?_, ?_, ?_, ?_, ?_⟩
  · exact fun _ => happ ▸ hidle
  · intro hc
    rw [hctor', hctor] at hc
    cases hc
  · intro t r ht
    rw [happ, hidle t] at ht
    rcases ht with ht | ht <;> cases ht
  · intro t r ht
    rw [happ, hidle t] at ht
    cases ht
  · exact fun _ t => .inl ((outstanding_congr h1 h2 h3 t).trans (hnone t))
  · exact fun t dest rest ht => absurd ht (hno t dest rest)

theorem paired_step {hwm : Nat} (s : CommHandler τ) (l : Label τ) (s' : CommHandler τ)
    (hs : s.Paired) (hok : s.SubscriberWaits l) (h : s.step hwm l = some s') : s'.Paired := by
  have hit := iterates_step s l s' hs.iterates h
  have hst := startupWaits_step s l s' hs.startup h
  cases l with
  | comm l =>
      by_cases hpc : ∃ st, s.pc = .startup st
      · obtain ⟨st, hpc⟩ := hpc
        exact paired_startup hs hit hst hpc h
      · rcases serves_of_commStep hs (fun st hst => hpc ⟨st, hst⟩) hok h with rfl | hserve
        · exact hs
        · refine hserve.paired hs hit hst (polled_commStep hs h) ?_
          by_contra hg
          rw [step, commStep_of_gone (by simpa using hg)] at h
          cases h
  | app t l =>
      obtain ⟨hret, h⟩ := step_app_eq_some h
      exact paired_appStep hs hit hst hret h
  | ctor l => exact paired_ctorStep hs hit hst h
  | env l =>
      cases h
      exact paired_envStep hs l

/-! ## The pairing -/

/-- A caller that gets the free mutex the second time has been served. -/
theorem processed_of_relock {s s' : CommHandler τ} {t : τ} (hs : s.Paired)
    (h : s.appStep t .relock = some s') {r : Request} (hw : s.app t = .waiting r) :
    s.Processed t r := by
  simp only [appStep, hw] at h
  split_ifs at h with hm
  refine (hs.waits t r hw).resolve_left ?_
  rw [hm]
  simp

/-- An unlock of the comm thread completes the request of the holder. -/
theorem completes_of_unlocks {hwm : Nat} {s s' : CommHandler τ} {l : CommLabel τ} (hs : s.Paired)
    (hok : s.SubscriberWaits (.comm l)) (h : s.commStep hwm l = some s') (hun : s.Unlocks l) :
    ∃ t r, s.mtx = some (.app t) ∧ s.app t = .waiting r ∧ s.Completes l t r := by
  have hrun : s.pc.gone = false := by
    by_contra hg
    rw [commStep_of_gone (by simpa using hg)] at h
    cases h
  cases commTrans_of_commStep h with
  | hello hpc hpeer =>
      rename_i t dest rest
      obtain ⟨hm, -, text, behind, hw, -⟩ := hs.hello t dest rest hpc
      exact ⟨t, _, hm, hw, dest, rest, text, hpc, rfl⟩
  | connFail hpc hpop =>
      rename_i rest t behind dest text q
      have htakes : Takes s { s with connSock := q } t (.conn dest text) := takes_conn hpop rfl rfl rfl
      obtain ⟨hm, hone, -, r, hw, hr⟩ := hs.of_takes hrun htakes
      exact ⟨t, r, hm, hw, rfl, hr ▸ hone, dest, text, request_of_wire_conn hr⟩
  | recvFailConn hpc =>
      have hne : s.connSock ≠ [] := hs.polled (by simp [hpc, CommPc.todo])
      obtain ⟨⟨t, dest, text⟩, q, hq⟩ := List.exists_cons_of_ne_nil hne
      have hpop : pop t s.connSock = some ((dest, text), q) := by simp [hq, pop]
      have htakes : Takes s { s with connSock := q } t (.conn dest text) := takes_conn hpop rfl rfl rfl
      obtain ⟨hm, hone, -, r, hw, hr⟩ := hs.of_takes hrun htakes
      exact ⟨t, r, hm, hw, hr ▸ hone, dest, text, request_of_wire_conn hr⟩
  | pubStart hpc hpop =>
      rename_i rest t behind text q
      have htakes : Takes s { s with pubstartPull := q } t (.pubStart text) :=
        takes_pubStart hpop rfl rfl rfl
      obtain ⟨hm, hone, -, r, hw, hr⟩ := hs.of_takes hrun htakes
      obtain ⟨gid, n, hr'⟩ := request_of_wire_pubStart hr
      exact ⟨t, r, hm, hw, rfl, hr ▸ hone, text, gid, n, hr'⟩
  | subSockNew hpc hq hpub hpid hmap =>
      subst hpid
      obtain ⟨t, text, hm, hw, hout⟩ := hok ⟨_, _, _, hq, hpub, hmap⟩
      exact ⟨t, _, hm, hw, hout, text, rfl⟩
  | subSockOld hpc | subSockTask hpc =>
      obtain ⟨t, text, hm, hw, hout⟩ := hok hun
      exact ⟨t, _, hm, hw, hout, text, rfl⟩
  | pushSuber hpc | pushSuberLost hpc => exact absurd hpc (hok _ _ _)
  | pushTask hpc | pushTaskLost hpc =>
      obtain ⟨cid, m, rest, hrest⟩ := hun
      exact absurd hrest (hok _ _ _)
  | recvFail hpc hb hs' =>
      obtain ⟨rest, hrest⟩ := hun
      rw [hpc] at hrest
      cases hrest
      exact absurd rfl hb
  | _ => cases hun

/-- Conversely a step that breaks the condition is not paired. -/
theorem subscriberWaits_of_releasesServed {s : CommHandler τ} {l : Label τ}
    (h : s.ReleasesServed l) : s.SubscriberWaits l := by
  unfold SubscriberWaits
  split
  · intro cid m rest hpc
    obtain ⟨t, r, -, -, hbad⟩ := h ⟨cid, m, rest, hpc⟩
    exact hbad
  · intro hnew
    obtain ⟨t, r, hm, hw, hout, text, rfl⟩ := h hnew
    exact ⟨t, text, hm, hw, hout⟩
  · trivial

/-- **Exactly the runs without out-of-turn releases are paired**: every unlock of the comm thread
releases the caller whose request it completes, and every caller passes its second lock after its
request has been processed, if and only if no step hands a `sub_hello` on and every announcement of
a new publisher finds a served caller of `subscribe_to` that holds the mutex. -/
theorem releasesServed_iff_subscriberWaits (hwm : Nat) (id : Cliid) (acceptConns : Bool)
    (ls : List (Label τ)) (s : CommHandler τ)
    (hrun : exec (step hwm) (init τ id acceptConns) ls = some s) :
    Meets (step hwm) ReleasesServed (init τ id acceptConns) ls ↔
      Meets (step hwm) SubscriberWaits (init τ id acceptConns) ls := by
  constructor
  · refine Meets.of_invariant (fun _ _ _ _ _ _ => trivial) ?_ trivial hrun
    exact fun s l _ _ hrel _ => subscriberWaits_of_releasesServed hrel
  · refine Meets.of_invariant paired_step ?_ (paired_init id acceptConns) hrun
    intro s l s' hs hok h
    cases l with
    | comm l => exact completes_of_unlocks hs hok h
    | app t l =>
        unfold ReleasesServed
        split
        · rename_i heq
          cases heq
        · rename_i heq
          cases heq
          intro r hw
          exact processed_of_relock hs (step_app_eq_some h).2 hw
        · trivial
    | ctor l => trivial
    | env l => trivial

/-- The first calls of a client: its connection is paired. -/
theorem releasesServed_connected :
    ∃ s, exec (step 1) (init Unit 1 false) connected = some s ∧
      s.rets = [((), .connectTo (ide2i 2), 0)] ∧
      Meets (step 1) ReleasesServed (init Unit 1 false) connected := by
  obtain ⟨s, hrun, hs⟩ := exists_exec (step 1) (init Unit 1 false) connected
    (fun s => s.rets = [((), .connectTo (ide2i 2), 0)]) (by decide)
  refine ⟨s, hrun, by simpa using hs, ?_⟩
  refine (releasesServed_iff_subscriberWaits 1 1 false connected s hrun).mpr ?_
  refine meets_of_forall_mem ?_
  simp [connected, SubscriberWaits]

/-- A publisher (`init_pub` with no address and no subscribers to wait for) takes a `sub_hello` from
its ROUTER socket while one of its threads asks for a connection to node 2. -/
def subHelloDuringConnect : List (Label Unit) :=
  [.comm (.startup true), .comm (.startup true), .comm (.startup true), .comm (.startup true),
    .ctor .relock, .ctor .unlock, .app () (.initPub [] [] 7 0), .app () .announce,
    .env (.arrive (ide2i 3) ⟨commHandlerSubInit, .comm⟩), .comm (.poll true),
    .comm (.router (ide2i 3)), .app () (.connectTo [104] [49] 2), .app () .lock,
    .app () (.sendReq true)]

/-- The unlock that follows the `sub_hello` lets `connect_to` return 0 with its request still in the
queue. -/
theorem not_releasesServed_subHello :
    ∃ s, exec (step 1) (init Unit 1 true) (subHelloDuringConnect ++
        [.comm (.push (some ())), .app () .relock, .app () .unlock, .app () .test]) = some s ∧
      s.rets = [((), .initPub 7, 0), ((), .connectTo (ide2i 2), 0)] ∧ s.routerConns = [] ∧
      s.connSock = [((), ide2i 2, connstr [104] [49])] ∧
      ¬ Meets (step 1) ReleasesServed (init Unit 1 true) (subHelloDuringConnect ++
        [.comm (.push (some ())), .app () .relock, .app () .unlock, .app () .test]) := by
  obtain ⟨s, hrun, hs⟩ := exists_exec (step 1) (init Unit 1 true) (subHelloDuringConnect ++
      [.comm (.push (some ())), .app () .relock, .app () .unlock, .app () .test])
    (fun s => s.rets = [((), .initPub 7, 0), ((), .connectTo (ide2i 2), 0)] ∧ s.routerConns = [] ∧
      s.connSock = [((), ide2i 2, connstr [104] [49])]) (by decide)
  obtain ⟨m, hmid, hm⟩ := exists_exec (step 1) (init Unit 1 true) subHelloDuringConnect
    (fun m => m.pc = .pushSuber (ide2i 3) ⟨commHandlerSubInit, .comm⟩ []) (by decide)
  simp only [decide_eq_true_eq] at hs hm
  refine ⟨s, hrun, hs.1, hs.2.1, hs.2.2, ?_⟩
  intro hmeets
  obtain ⟨t, r, -, -, hbad⟩ := (hmeets.of_append hmid).head ⟨_, _, _, hm⟩
  exact hbad

end CommHandler

end CommTest.Zmq
