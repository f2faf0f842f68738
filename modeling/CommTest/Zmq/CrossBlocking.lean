import CommTest.Zmq.Errcode

/-!
# Cross-blocking of the comm thread and a single-threaded application

The sends on `taskq` and `suberq` block while no puller with room is connected, and the pullers are
created by the application: the one of `taskq` by its first `recv` or `recv_async`, the one of
`suberq` inside `init_pub`. Until then a task of a peer stops the comm thread, and with it the calls
that wait for the comm thread.

* `crossBlocked` is the stuck state: the comm thread waits for room, and the application waits in
  `get_one_connection` for a client whose hello is in the ROUTER socket, or for the second lock of a
  request.
* `entersCrossBlock` lists the ways into it, as conditions on the state before the step.
* `never_crossBlocked_iff`: no state of a run is cross-blocked if and only if no step of it is one
  of these.
-/

set_option linter.unusedSectionVars false

namespace CommTest.Zmq

open FairQueue Lts

namespace CommHandler

/-! ## The stuck states -/

/-- Some connected puller of `taskq` has room. -/
def taskRoom (hwm : Nat) (s : CommHandler Unit) : Bool :=
  s.taskPullers.any fun t => (pipe t s.taskPipes).length < hwm

/-- Some connected puller of `suberq` has room. -/
def suberRoom (hwm : Nat) (s : CommHandler Unit) : Bool :=
  s.suberPullers.any fun t => (pipe t s.suberPipes).length < hwm

/-- The comm thread is blocked in its send on `taskq` or `suberq`. -/
def starved (hwm : Nat) (s : CommHandler Unit) : Bool :=
  match s.pc with
  | .pushTask _ _ _ => !s.taskRoom hwm
  | .pushSuber _ _ _ => !s.suberRoom hwm
  | _ => false

/-- The message is the hello of a client that is not in `clientmap`. -/
def isNewHello (s : CommHandler Unit) (e : Cliid × Msg Unit) : Bool :=
  e.2.data = commHandlerInit ∧ s.clientmap e.1 = none

/-- The hello of a new client waits in the ROUTER socket. -/
def helloWaits (s : CommHandler Unit) : Bool := s.routerIn.any s.isNewHello

/-- The application is blocked in `get_one_connection`, waiting for a client whose hello is already
in the ROUTER socket, or in the second lock of a request. -/
def appBlocked (s : CommHandler Unit) : Bool :=
  match s.app () with
  | .popping => s.clientq.isEmpty && s.helloWaits
  | .waiting _ => s.mtx ≠ none
  | _ => false

/-- Neither can go on without the other. -/
def crossBlocked (hwm : Nat) (s : CommHandler Unit) : Bool := s.starved hwm && s.appBlocked

/-! ## The ways into them -/

/-- The step takes a message for `taskq` or `suberq` although that queue has no puller with room. -/
def takesFull (hwm : Nat) (s : CommHandler Unit) : Label Unit → Bool
  | .comm (.router c) =>
      match pop c s.routerIn with
      | some (m, _) =>
          match routerDest s.clientmap c m.data with
          | .suber => !s.suberRoom hwm
          | .task => !s.taskRoom hwm
          | .newClient | .reconnected => false
      | none => false
  | .comm (.subSock behind _ _) =>
      match s.subSock with
      | (_, m) :: _ =>
          (m.data ++ behind).take commHandlerPubInit.length ≠ commHandlerPubInit && !s.taskRoom hwm
      | [] => false
  | _ => false

/-- With the step the application begins to wait for the comm thread: it calls `get_one_connection`
with a new client's hello in the ROUTER socket only, it sends a request, or the hello arrives while
it waits. -/
def beginsWait (s : CommHandler Unit) : Label Unit → Bool
  | .app _ .getOneConnection =>
      s.acceptConns && s.errcode = 0 && (s.clientq.isEmpty && s.helloWaits)
  | .app _ (.sendReq true) => s.mtx ≠ none
  | .env (.arrive c m) => s.app () = .popping && (s.clientq.isEmpty && s.isNewHello (c, m))
  | _ => false

/-- The step makes the comm thread wait for room while the application waits for the comm thread, or
the application wait for the comm thread while that waits for room. -/
def entersCrossBlock (hwm : Nat) (s : CommHandler Unit) (l : Label Unit) : Bool :=
  (s.takesFull hwm l && s.appBlocked) || (s.starved hwm && s.beginsWait l)

/-! ## One step -/

/-- The application has not started before the constructor has returned. -/
def IdleUntilReturned (s : CommHandler Unit) : Prop := s.ctor ≠ .returned → s.app () = .idle

theorem helloWaits_of_pop {s s' : CommHandler Unit} {c : Cliid} {m : Msg Unit}
    {q : List (Cliid × Msg Unit)} (hpop : pop c s.routerIn = some (m, q)) (hq : s'.routerIn = q)
    (hmap : s'.clientmap = s.clientmap) (hm : s.isNewHello (c, m) = false) :
    s'.helloWaits = s.helloWaits := by
  obtain ⟨l, r, hl, rfl, -⟩ := pop_split hpop
  have htest : s'.isNewHello = s.isNewHello := by
    funext e
    simp [isNewHello, hmap]
  simp [helloWaits, hq, hl, htest, hm]

theorem appBlocked_congr {s s' : CommHandler Unit} (happ : s'.app = s.app)
    (hq : s'.clientq = s.clientq) (hh : s'.helloWaits = s.helloWaits) (hm : s'.mtx = s.mtx) :
    s'.appBlocked = s.appBlocked := by
  simp [appBlocked, happ, hq, hh, hm]

theorem crossBlocked_commStep {hwm : Nat} {s s' : CommHandler Unit} {l : CommLabel Unit}
    (hs : s.crossBlocked hwm = false) (h : s.commStep hwm l = some s') :
    s'.crossBlocked hwm = s.entersCrossBlock hwm (.comm l) := by
  cases commTrans_of_commStep h with
  | helloRetry hpc => simp [entersCrossBlock, takesFull, beginsWait, hs]
  | routerSuber hpc hpop hd hlen =>
      rename_i rest c m q
      have hnew : s.isNewHello (c, m) = false := by
        have hne : m.data ≠ commHandlerInit := by
          intro hm
          rw [hm, forwarded_of_lt (by decide)] at hd
          exact commHandlerInit_ne_commHandlerSubInit hd
        simp [isNewHello, hne]
      have hblocked : ({ s with routerIn := q, pc := .pushSuber c m.forwarded rest } :
          CommHandler Unit).appBlocked = s.appBlocked :=
        appBlocked_congr rfl rfl (helloWaits_of_pop hpop rfl rfl hnew) rfl
      simp [crossBlocked, entersCrossBlock, takesFull, beginsWait, hpop, routerDest, isSubInit_iff, hd,
        starved, suberRoom, hblocked]
  | routerTask hpc hpop hd hmap hlen =>
      rename_i rest c m q
      have hnew : s.isNewHello (c, m) = false := by
        simp [isNewHello, hmap]
      have hblocked : ({ s with routerIn := q, pc := .pushTask c m.forwarded rest } :
          CommHandler Unit).appBlocked = s.appBlocked :=
        appBlocked_congr rfl rfl (helloWaits_of_pop hpop rfl rfl hnew) rfl
      simp [crossBlocked, entersCrossBlock, takesFull, beginsWait, hpop, routerDest, isSubInit_iff, hd,
        hmap, starved, taskRoom, hblocked]
  | subSockTask hpc hq hpub =>
      rename_i rest behind junk sent gid m q
      have hblocked : ({ s with subSock := q, pc := .pushTask (ide2i gid) m.forwarded rest } :
          CommHandler Unit).appBlocked = s.appBlocked := appBlocked_congr rfl rfl rfl rfl
      simp [crossBlocked, entersCrossBlock, takesFull, beginsWait, hq, hpub, starved, taskRoom,
        hblocked]
  | routerClient hpc hpop hd hmap hlen =>
      rename_i rest c m q
      have hdest : routerDest s.clientmap c m.data ≠ .task ∧
          routerDest s.clientmap c m.data ≠ .suber := by
        unfold routerDest
        rw [if_neg fun hsub => hd (isSubInit_iff.mp hsub)]
        split <;> simp_all
      cases hrd : routerDest s.clientmap c m.data with
      | suber => exact absurd hrd hdest.2
      | task => exact absurd hrd hdest.1
      | newClient | reconnected =>
          simp [crossBlocked, entersCrossBlock, takesFull, beginsWait, hpop, hrd, starved, hpc]
  | subSockNew hpc hq hpub | subSockOld hpc hq hpub =>
      simp [crossBlocked, entersCrossBlock, takesFull, beginsWait, hq, hpub, starved, unlock]
  | _ => simp [crossBlocked, entersCrossBlock, takesFull, beginsWait, starved, unlock, failed]

/-- Only `get_one_connection` and the send of a request begin a wait for the comm thread. -/
theorem appBlocked_appStep {s s' : CommHandler Unit} {t : Unit} {l : AppLabel}
    (hget : l ≠ .getOneConnection) (hreq : l ≠ .sendReq true) (h : s.appStep t l = some s') :
    s'.appBlocked = false := by
  cases appTrans_of_appStep h with
  | getOneConnection => exact absurd rfl hget
  | sendReq => exact absurd rfl hreq
  | unlock hpc =>
      rename_i r
      cases r <;> simp [appBlocked, finish, startAnnounce, goto]
  | _ => simp [appBlocked, goto, ret, startAnnounce]

theorem appStep_getOneConnection {s s' : CommHandler Unit} {t : Unit}
    (h : s.appStep t .getOneConnection = some s') :
    ((s.acceptConns && s.errcode = 0) = false ∧ s'.app () = .idle) ∨
    ((s.acceptConns && s.errcode = 0) = true ∧ s' = s.goto t .popping) := by
  cases hpc : s.app t with
  | idle =>
      simp only [appStep, hpc] at h
      split_ifs at h with hacc <;> cases h
      · refine .inl ⟨?_, by simp [ret]⟩
        rcases hacc with hacc | hacc <;> simp [hacc]
      · rw [not_or] at hacc
        exact .inr ⟨by simpa using hacc, rfl⟩
  | _ => simp [appStep, hpc] at h

theorem appStep_sendReq {s s' : CommHandler Unit} {t : Unit}
    (h : s.appStep t (.sendReq true) = some s') :
    ∃ r, s' = (s.enqueue t r).goto t (.waiting r) := by
  cases hpc : s.app t with
  | locked r =>
      simp only [appStep, hpc, if_true, Option.some.injEq] at h
      exact ⟨r, h.symm⟩
  | _ => simp [appStep, hpc] at h

theorem crossBlocked_appStep {hwm : Nat} {s s' : CommHandler Unit} {t : Unit} {l : AppLabel}
    (h : s.appStep t l = some s') :
    s'.crossBlocked hwm = s.entersCrossBlock hwm (.app t l) := by
  by_cases hget : l = .getOneConnection
  · subst hget
    rcases appStep_getOneConnection h with ⟨hno, hidle⟩ | ⟨hyes, rfl⟩
    · simp [crossBlocked, appBlocked, entersCrossBlock, takesFull, beginsWait, hno, hidle]
    · have hpop : (s.goto t .popping).app () = .popping := by simp [goto]
      have hstarved : (s.goto t .popping).starved hwm = s.starved hwm := rfl
      have hq : (s.goto t .popping).clientq = s.clientq := rfl
      have hhello : (s.goto t .popping).helloWaits = s.helloWaits := rfl
      simp only [crossBlocked, appBlocked, entersCrossBlock, takesFull, beginsWait, hpop, hstarved, hq,
        hhello, hyes, Bool.false_and, Bool.false_or, Bool.true_and]
  by_cases hreq : l = .sendReq true
  · subst hreq
    obtain ⟨r, rfl⟩ := appStep_sendReq h
    have hwaits : ((s.enqueue t r).goto t (.waiting r)).app () = .waiting r := by simp [goto]
    have hstarved : ((s.enqueue t r).goto t (.waiting r)).starved hwm = s.starved hwm := by
      cases r <;> rfl
    have hm : ((s.enqueue t r).goto t (.waiting r)).mtx = s.mtx := by cases r <;> rfl
    simp only [crossBlocked, appBlocked, entersCrossBlock, takesFull, beginsWait, hwaits, hstarved, hm,
      Bool.false_and, Bool.false_or]
  · have hwait : s.beginsWait (.app t l) = false := by
      unfold beginsWait
      split <;> simp_all
    simp [crossBlocked, entersCrossBlock, takesFull, hwait, appBlocked_appStep hget hreq h]

theorem crossBlocked_envStep {hwm : Nat} {s : CommHandler Unit} (hs : s.crossBlocked hwm = false)
    (l : EnvLabel Unit) : (s.envStep l).crossBlocked hwm = s.entersCrossBlock hwm (.env l) := by
  cases l with
  | arrive c m =>
      have hstarved : (s.envStep (.arrive c m)).starved hwm = s.starved hwm := rfl
      have hhello : (s.envStep (.arrive c m)).helloWaits = (s.helloWaits || s.isNewHello (c, m)) := by
        have htest : (s.envStep (.arrive c m)).isNewHello = s.isNewHello := rfl
        have hin : (s.envStep (.arrive c m)).routerIn = s.routerIn ++ [(c, m)] := rfl
        simp [helloWaits, htest, hin]
      simp only [crossBlocked, entersCrossBlock, takesFull, Bool.false_and, Bool.false_or,
        beginsWait] at hs ⊢
      rw [hstarved]
      cases hst : s.starved hwm with
      | false => rfl
      | true =>
          -- the application is not blocked yet, so it is the new hello that counts
          rw [hst, Bool.true_and] at hs
          simp only [Bool.true_and]
          cases hpc : s.app () with
          | popping =>
              simp only [appBlocked, hpc] at hs
              simp only [appBlocked, show (s.envStep (.arrive c m)).app () = .popping from hpc,
                show (s.envStep (.arrive c m)).clientq = s.clientq from rfl, hhello]
              cases hq : s.clientq.isEmpty <;> simp_all
          | _ => simp_all [appBlocked, envStep]
  | peerUp c | monitorEvent e | subArrive gid m =>
      rw [entersCrossBlock, takesFull, beginsWait, Bool.false_and, Bool.and_false, Bool.or_false]
      · exact hs
      all_goals simp

theorem idleUntilReturned_step {hwm : Nat} (s : CommHandler Unit) (l : Label Unit)
    (s' : CommHandler Unit) (hs : s.IdleUntilReturned) (h : s.step hwm l = some s') :
    s'.IdleUntilReturned := by
  cases l with
  | comm l => cases commTrans_of_commStep h <;> exact hs
  | app t l =>
      obtain ⟨hret, h⟩ := step_app_eq_some h
      exact fun hne => absurd ((appStep_frame h).2.2.trans hret) hne
  | ctor l =>
      rcases ctorStep_eq_some h with ⟨hc, _, rfl⟩ | ⟨hc, rfl⟩ <;>
        exact fun _ => hs (by simp [hc])
  | env l =>
      cases h
      cases l <;> exact hs

/-- From a state that is not cross-blocked, exactly the listed steps lead into one. -/
theorem crossBlocked_step {hwm : Nat} (s : CommHandler Unit) (l : Label Unit)
    (s' : CommHandler Unit) (hs : s.IdleUntilReturned) (hfree : s.crossBlocked hwm = false)
    (h : s.step hwm l = some s') : s'.crossBlocked hwm = s.entersCrossBlock hwm l := by
  cases l with
  | comm l => exact crossBlocked_commStep hfree h
  | app t l => exact crossBlocked_appStep (step_app_eq_some h).2
  | ctor l =>
      have hidle : s'.app () = .idle := by
        rcases ctorStep_eq_some h with ⟨hc, _, rfl⟩ | ⟨hc, rfl⟩ <;> exact hs (by simp [hc])
      simp [crossBlocked, appBlocked, entersCrossBlock, takesFull, beginsWait, hidle]
  | env l =>
      cases h
      exact crossBlocked_envStep hfree l

/-! ## Whole runs -/

/-- **When comm thread and application never block each other.** No state of a run of a
single-threaded application is cross-blocked if and only if none of its steps is one of the listed
ways into such a state. -/
theorem never_crossBlocked_iff (hwm : Nat) (id : Cliid) (acceptConns : Bool)
    (ls : List (Label Unit)) (s : CommHandler Unit)
    (hrun : exec (step hwm) (init Unit id acceptConns) ls = some s) :
    (∀ pre m, pre <+: ls → exec (step hwm) (init Unit id acceptConns) pre = some m →
        m.crossBlocked hwm = false) ↔
      Meets (step hwm) (fun s l => s.entersCrossBlock hwm l = false) (init Unit id acceptConns) ls := by
  refine always_iff_meets idleUntilReturned_step ?_ (fun _ => rfl) rfl hrun
  intro s l s' hs hfree h
  rw [crossBlocked_step s l s' hs hfree h]

/-- A server that takes its client before the task arrives and then receives: the puller of `taskq`
is there in time. -/
def recvInTime : List (Label Unit) :=
  [.comm (.startup true), .comm (.startup true), .comm (.startup true), .comm (.startup true),
    .ctor .relock, .ctor .unlock, .env (.arrive (ide2i 2) ⟨commHandlerInit, .comm⟩),
    .app () .getOneConnection, .comm (.poll true), .comm (.router (ide2i 2)), .app () .pop,
    .app () .recv, .env (.arrive (ide2i 2) ⟨[104], .send ()⟩), .comm (.poll true),
    .comm (.router (ide2i 2)), .comm (.push (some ())), .app () .recvDone, .app () .test]

theorem never_crossBlocked_recvInTime :
    (exec (step 1) (init Unit 1 true) recvInTime).isSome = true ∧
      ∀ pre m, pre <+: recvInTime → exec (step 1) (init Unit 1 true) pre = some m →
        m.crossBlocked 1 = false := by
  obtain ⟨s, hrun, -⟩ := exists_exec (step 1) (init Unit 1 true) recvInTime
    (fun s => s.rets = [((), .getOneConnection, 2), ((), .recv, 1)]) (by decide)
  refine ⟨by rw [hrun]; rfl, ?_⟩
  exact (never_crossBlocked_iff 1 1 true recvInTime s hrun).mpr (by decide)

/-- Two clients connect, and the first one sends a task before the application has called `recv`:
the comm thread waits for a puller of `taskq` while the application waits in `get_one_connection`
for the second client, whose hello is in the ROUTER socket. -/
theorem crossBlocked_two_clients :
    ∃ s, exec (step 1) (init Unit 1 true)
        [.comm (.startup true), .comm (.startup true), .comm (.startup true), .comm (.startup true),
          .ctor .relock, .ctor .unlock, .env (.arrive (ide2i 2) ⟨commHandlerInit, .comm⟩),
          .comm (.poll true), .comm (.router (ide2i 2)), .app () .getOneConnection, .app () .pop,
          .env (.arrive (ide2i 2) ⟨[104], .send ()⟩),
          .env (.arrive (ide2i 3) ⟨commHandlerInit, .comm⟩), .comm (.poll true),
          .comm (.router (ide2i 2)), .app () .getOneConnection] = some s ∧
      s.rets = [((), .getOneConnection, 2)] ∧ s.crossBlocked 1 = true := by
  obtain ⟨s, hrun, hs⟩ := exists_exec (step 1) (init Unit 1 true)
    [.comm (.startup true), .comm (.startup true), .comm (.startup true), .comm (.startup true),
      .ctor .relock, .ctor .unlock, .env (.arrive (ide2i 2) ⟨commHandlerInit, .comm⟩),
      .comm (.poll true), .comm (.router (ide2i 2)), .app () .getOneConnection, .app () .pop,
      .env (.arrive (ide2i 2) ⟨[104], .send ()⟩),
      .env (.arrive (ide2i 3) ⟨commHandlerInit, .comm⟩), .comm (.poll true),
      .comm (.router (ide2i 2)), .app () .getOneConnection]
    (fun s => s.rets = [((), .getOneConnection, 2)] ∧ s.crossBlocked 1 = true) (by decide)
  simp only [decide_eq_true_eq] at hs
  exact ⟨s, hrun, hs⟩

end CommHandler

end CommTest.Zmq
