import CommTest.Zmq.CommHandler

/-!
# The application threads of a `comm_handler`, its constructor and the network around it

`appStep s t l` is one step of application thread `t` inside (or entering, or leaving) a call of the
library. A call that waits is cut at its waits, so that other threads interleave there:

* a request (`connect_to`, the address part of `init_pub`, `subscribe_to`) is `calling`, `lock`,
  `sendReq`, `relock`, `unlock`; the three share this skeleton (`AppLabel.lock` … `AppLabel.unlock`)
  and differ in the queue they use and in what follows;
* `init_pub` then alternates `announce` (publish a hello) and `drain` (count the replies);
* `get_one_connection`, `recv` and `shutdown` have one wait each (`pop`, `recvDone`, `join`);
* the calls that test `errcode` once more before they return have a step `test` for it, as the comm
  thread may fail in between.

`CommHandler.step` puts the comm thread, the application, the constructor and the network together.
-/

namespace CommTest.Zmq

open FairQueue

variable {τ : Type} [DecidableEq τ]

/-- The steps of an application thread. -/
inductive AppLabel
  | connectTo (destip destport : Bytes) (destid : Cliid)
  | initPub (ip port : Bytes) (gid : Cliid) (numSubs : Int)
  | subscribeTo (pubip pubport : Bytes) (pubids : List Cliid)
  | lock
  | sendReq (ok : Bool)
  | relock
  | unlock
  | announce
  | announced
  | drain
  | publish (group : Cliid) (data : Bytes)
  | send (cid : Cliid) (data : Bytes)
  | recv
  | recvDone
  | recvAsync
  | getOneConnection
  | pop
  | shutdown
  | join
  | test

/-- The call a request belongs to; the destination is named by its internal id. -/
def Request.api : Request → Api
  | .connect dest _ => .connectTo dest
  | .pubStart _ gid _ => .initPub gid
  | .subscribe _ => .subscribeTo

namespace CommHandler

/-- Thread `t` goes to `pc`. -/
def goto (s : CommHandler τ) (t : τ) (pc : AppPc) : CommHandler τ :=
  { s with app := Function.update s.app t pc }

/-- Thread `t` returns `v` from `api`. -/
def ret (s : CommHandler τ) (t : τ) (api : Api) (v : Int) : CommHandler τ :=
  { s with app := Function.update s.app t .idle, rets := s.rets ++ [(t, api, v)] }

/-- The receive calls create the `taskpull` socket of the thread when it has none. -/
def attachTask (s : CommHandler τ) (t : τ) : CommHandler τ :=
  if t ∈ s.taskPullers then s else { s with taskPullers := s.taskPullers ++ [t] }

/-- `init_pub` creates the `suberq_pull` socket of the thread when it has none, and then starts to
announce. Source: `comm_handler.cpp`, `init_pub`. -/
def startAnnounce (s : CommHandler τ) (t : τ) (gid : Cliid) (numSubs : Int) : CommHandler τ :=
  { s with suberPullers := if t ∈ s.suberPullers then s.suberPullers else s.suberPullers ++ [t] }.goto t
    (.announce gid numSubs 0)

/-- The send of a request on the push socket of its kind. -/
def enqueue (s : CommHandler τ) (t : τ) : Request → CommHandler τ
  | .connect dest text => { s with connSock := s.connSock ++ [(t, dest, text)] }
  | .pubStart text _ _ => { s with pubstartPull := s.pubstartPull ++ [(t, text)] }
  | .subscribe text => { s with subpull := s.subpull ++ [(t, text)] }

/-- What follows the last unlock of a request: `connect_to` and `subscribe_to` test `errcode` and
return 0, `init_pub` goes on to announce. -/
def finish (s : CommHandler τ) (t : τ) : Request → CommHandler τ
  | .pubStart _ gid numSubs => s.startAnnounce t gid numSubs
  | r => s.goto t (.testing r.api 0)

/-- The external id `recv` stores for an internal one. -/
def recvCid (incid : Cliid) : Cliid := if 0 ≤ incid then idi2e incid else incid

/-- One step of application thread `t`. Source: `comm_handler.cpp`, the member functions. -/
def appStep (s : CommHandler τ) (t : τ) (l : AppLabel) : Option (CommHandler τ) :=
  match s.app t, l with
  | .idle, .connectTo destip destport destid =>
      if s.errcode ≠ 0 then some (s.ret t (.connectTo (ide2i destid)) (-1))
      else some (s.goto t (.calling (.connect (ide2i destid) (connstr destip destport))))
  | .idle, .initPub ip port gid numSubs =>
      if ip ≠ [] ∧ port ≠ [] then some (s.goto t (.calling (.pubStart (connstr ip port) gid numSubs)))
      else some (s.startAnnounce t gid numSubs)
  | .idle, .subscribeTo pubip pubport pubids =>
      if s.errcode ≠ 0 then some (s.ret t .subscribeTo (-1))
      else some (s.goto t (.calling (.subscribe (subText pubip pubport pubids))))
  | .calling r, .lock =>
      if s.mtx = none then some ({ s with mtx := some (.app t) }.goto t (.locked r)) else none
  | .locked r, .sendReq ok =>
      if ok then some ((s.enqueue t r).goto t (.waiting r))
      else some ({ s with mtx := none }.ret t r.api (-1))
  | .waiting r, .relock =>
      if s.mtx = none then some ({ s with mtx := some (.app t) }.goto t (.relocked r)) else none
  | .relocked r, .unlock => some ({ s with mtx := none }.finish t r)
  | .announce gid numSubs nsubs, .announce =>
      if nsubs < numSubs then
        if s.errcode ≠ 0 then some (s.ret t (.initPub gid) (-1))
        else
          some ({ s with pubSendpull := s.pubSendpull ++ [(t, gid, Msg.mk (pubHello s.id) .comm)] }.goto t
            (.announced gid numSubs nsubs))
      else some (s.ret t (.initPub gid) 0)
  | .announced gid numSubs nsubs, .announced =>
      if s.errcode ≠ 0 then some (s.ret t (.initPub gid) (-1))
      else some (s.goto t (.drain gid numSubs nsubs))
  | .drain gid numSubs nsubs, .drain =>
      match FairQueue.pop t s.suberPipes with
      | some ((_, m), q) =>
          if m.data ≠ [] then some ({ s with suberPipes := q }.goto t (.drain gid numSubs (nsubs + 1)))
          else some ({ s with suberPipes := q }.goto t (.announce gid numSubs nsubs))
      | none => some (s.goto t (.announce gid numSubs nsubs))
  | .idle, .publish group data =>
      if s.errcode ≠ 0 then some (s.ret t (.publish group data) (-1))
      else
        some ({ s with pubSendpull := s.pubSendpull ++ [(t, group, Msg.mk data (.publish t))] }.goto t
          (.testing (.publish group data) data.length))
  | .idle, .send cid data =>
      if s.errcode ≠ 0 then some (s.ret t (.send cid data) (-1))
      else
        some ({ s with msgq := s.msgq ++ [(t, ide2i cid, Msg.mk data (.send t))],
                       sendLog := s.sendLog ++ [(t, ide2i cid, Msg.mk data (.send t))] }.goto t
          (.testing (.send cid data) data.length))
  | .idle, .recv =>
      if s.errcode ≠ 0 then some (s.ret t .recv (-1))
      else some ((s.attachTask t).goto t .receiving)
  | .receiving, .recvDone =>
      match FairQueue.pop t s.taskPipes with
      | some ((k, cid, m), q) =>
          some ({ s with taskPipes := q,
                         received := s.received ++ [(k, t, recvCid cid, m.data)] }.goto t
            (.testing .recv m.data.length))
      | none => none
  | .idle, .recvAsync =>
      if s.errcode ≠ 0 then some (s.ret t .recvAsync (-1))
      else
        match FairQueue.pop t s.taskPipes with
        | some ((k, cid, m), q) =>
            -- an empty payload is consumed and reported as nothing received
            if m.data = [] then some ({ s.attachTask t with taskPipes := q }.ret t .recvAsync 0)
            else
              some ({ s.attachTask t with
                taskPipes := q,
                received := s.received ++ [(k, t, idi2e cid, m.data)] }.goto t
                  (.testing .recvAsync m.data.length))
        | none => some ((s.attachTask t).ret t .recvAsync 0)
  | .idle, .getOneConnection =>
      if s.acceptConns = false ∨ s.errcode ≠ 0 then some (s.ret t .getOneConnection (-1))
      else some (s.goto t .popping)
  | .popping, .pop =>
      match s.clientq with
      | c :: q => some ({ s with clientq := q }.ret t .getOneConnection c.toInt)
      | [] => none
  | .idle, .shutdown => some ({ s with shutdownSock := s.shutdownSock + 1 }.goto t .joining)
  | .joining, .join =>
      match s.pc with
      | .exited _ => some (s.ret t .shutdown 0)
      | _ => none
  | .testing api v, .test => some (s.ret t api (if s.errcode ≠ 0 then -1 else v))
  | _, _ => none

/-! ## Constructor and network -/

end CommHandler

/-- The steps of the constructor after it has created the comm thread. -/
inductive CtorLabel
  | relock
  | unlock

/-- What the network does to the sockets of a node. -/
inductive EnvLabel (τ : Type)
  | peerUp (c : Cliid)
  | arrive (c : Cliid) (m : Msg τ)
  | monitorEvent (e : MonitorEvent)
  | subArrive (gid : Cliid) (m : Msg τ)

/-- The steps of a node: its comm thread, one of its application threads, its constructor or the
network. -/
inductive Label (τ : Type)
  | comm (l : CommLabel τ)
  | app (t : τ) (l : AppLabel)
  | ctor (l : CtorLabel)
  | env (l : EnvLabel τ)

namespace CommHandler

/-- The constructor's second lock, and its unlock with the test of `errcode`. Source:
`comm_handler.hpp`, `comm_handler`. -/
def ctorStep (s : CommHandler τ) : CtorLabel → Option (CommHandler τ)
  | .relock =>
      if s.ctor = .waiting ∧ s.mtx = none then some { s with mtx := some .ctor, ctor := .relocked }
      else none
  | .unlock =>
      if s.ctor = .relocked then
        some { s with mtx := none, ctor := if s.errcode ≠ 0 then .threw else .returned }
      else none

/-- The network. -/
def envStep (s : CommHandler τ) : EnvLabel τ → CommHandler τ
  | .peerUp c => { s with peers := s.peers ++ [c] }
  | .arrive c m => { s with routerIn := s.routerIn ++ [(c, m)] }
  | .monitorEvent e => { s with monitorSock := s.monitorSock ++ [e] }
  | .subArrive gid m => { s with subSock := s.subSock ++ [(gid, m)] }

/-- One step of a node. The application has the object only once the constructor has returned. -/
def step (hwm : Nat) (s : CommHandler τ) : Label τ → Option (CommHandler τ)
  | .comm l => s.commStep hwm l
  | .app t l => if s.ctor = .returned then s.appStep t l else none
  | .ctor l => s.ctorStep l
  | .env l => some (s.envStep l)

/-- Construction and a connection to node 2, as the clients of the tests begin. -/
def connected : List (Label Unit) :=
  [.comm (.startup true), .comm (.startup true), .comm (.startup true), .ctor .relock, .ctor .unlock,
    .app () (.connectTo [104] [49] 2), .app () .lock, .app () (.sendReq true), .comm (.poll true),
    .comm (.conn () [0] true), .env (.peerUp (ide2i 2)), .comm (.hello true), .app () .relock,
    .app () .unlock, .app () .test]

end CommHandler

end CommTest.Zmq
