import CommTest.Lib.Lts
import CommTest.Lib.FairQueue
import CommTest.Zmq.Wire
import Mathlib.Logic.Function.Basic

/-!
# One `comm_handler`: its comm thread, its application threads and its sockets

The object of `comm_handler.hpp` with everything that runs on it, as a labelled transition system.
`τ` is the type of application threads (any type, so any number of them).

* `CommHandler τ` is the state: the fields of the class, one FIFO pipe per sender in front of every
  PULL and ROUTER socket (`FairQueue`), the mutex `sync_mtx`, the program counter of the comm thread
  (`CommPc`), of the constructor (`CtorPc`) and of every application thread (`AppPc`).
* `commStep` is the comm thread: the calls of `start_handler` before the loop, then `zmq::poll`
  (which records once which of the nine sockets are readable) and one step per event block, in the
  order of the source. A label carries the outcome of the socket calls of the block, which
  message a fair queue gives first, and the bytes that lie behind a buffer in memory. The sends that
  may block (`taskq`, `suberq`) and the hello loop are program counters of their own. The length of
  a received buffer is an `int` (`recvLen`): a message whose length is negative there leaves the
  block no step but `recvFail`, and of any other the block sends on as many bytes as the `int` says.
* `appStep` is the application side: the API calls, cut where they wait (the two locks of a
  request, `clientq.pop`, the blocking receive, `pthread_join`).
* `envStep` is the network: a peer becomes known to the ROUTER socket, messages and monitor events
  arrive; `ctorStep` is the constructor's wait for the comm thread.

Every message carries an `Origin` that no step reads: it records who wrote the payload, so that
statements can speak of the messages of one thread. The fields from `sendLog` on are histories of
the same kind.

The inproc pipes towards the comm thread are unbounded here (a full pipe only delays its sender);
the PUSH sockets `taskq` and `suberq` are bound and block while no puller has room (`hwm`).
-/

namespace CommTest.Zmq

open FairQueue

/-! ## Messages and program counters -/

/-- Who wrote a payload: the comm thread of some node, or an application thread that passed it to
`send` or to `publish`. No step depends on it. -/
inductive Origin (τ : Type)
  | comm
  | send (t : τ)
  | publish (t : τ)
  deriving DecidableEq

/-- A payload as it travels. -/
structure Msg (τ : Type) where
  data : Bytes
  origin : Origin τ
  deriving DecidableEq

/-- The message as a block sends it on: `len` bytes of its payload. -/
def Msg.forwarded {τ : Type} (m : Msg τ) : Msg τ := { m with data := Zmq.forwarded m.data }

@[simp] theorem Msg.forwarded_data {τ : Type} (m : Msg τ) :
    m.forwarded.data = Zmq.forwarded m.data := rfl

@[simp] theorem Msg.forwarded_origin {τ : Type} (m : Msg τ) : m.forwarded.origin = m.origin := rfl

theorem Msg.forwarded_of_lt {τ : Type} {m : Msg τ} (h : m.data.length < 2 ^ 31) :
    m.forwarded = m := by
  rw [Msg.forwarded, Zmq.forwarded_of_lt h]

/-- The nine event blocks of the poll loop. -/
inductive Block
  | msgq | router | monitor | conn | pubSend | sub | subSock | pubStart | shutdown
  deriving DecidableEq

/-- The order in which one iteration of the loop serves its events. Source: `comm_handler.cpp`,
`start_handler`: items 0, 1, 3, 4, 5, 6, 7, 8 and last 2, the shutdown socket. -/
def blockOrder : List Block :=
  [.msgq, .router, .monitor, .conn, .pubSend, .sub, .subSock, .pubStart, .shutdown]

/-- The four groups of socket calls before the loop. -/
inductive Startup
  | setsockopt | socketMonitor | monitorConnect | bind
  deriving DecidableEq

/-- Why the comm thread returned. -/
inductive Exit
  | startup (st : Startup)
  | poll
  | block (b : Block)
  | shutdown
  deriving DecidableEq

/-- Events on `monitor_sock`; `malformed` stands for a message that is not a `zmq_event_t`. -/
inductive MonitorEvent
  | connected | accepted | disconnected
  | other (n : Nat)
  | malformed
  deriving DecidableEq

/-- Where the comm thread is. `blocks rest` has the blocks of this iteration still to serve;
`blocks []` is at `zmq::poll`. -/
inductive CommPc (τ : Type)
  | startup (st : Startup)
  | blocks (rest : List Block)
  | hello (t : τ) (dest : Cliid) (rest : List Block)
  | pushTask (cid : Cliid) (m : Msg τ) (rest : List Block)
  | pushSuber (cid : Cliid) (m : Msg τ) (rest : List Block)
  | spinning
  | aborted
  | exited (e : Exit)
  deriving DecidableEq

/-- A request that an application thread hands to the comm thread and waits for: the address text
of `connect_to` with the internal id it is for, the address of `init_pub` with the announcement that
follows it, and the text of `subscribe_to`. -/
inductive Request
  | connect (dest : Cliid) (text : Bytes)
  | pubStart (text : Bytes) (gid : Cliid) (numSubs : Int)
  | subscribe (text : Bytes)
  deriving DecidableEq

/-- The API calls, for the record of returned values; `connect_to` is named by the internal id of
its destination. -/
inductive Api
  | connectTo (dest : Cliid)
  | initPub (gid : Cliid)
  | subscribeTo
  | publish (gid : Cliid) (data : Bytes)
  | send (cid : Cliid) (data : Bytes)
  | recv
  | recvAsync
  | getOneConnection
  | shutdown
  deriving DecidableEq

/-- Where an application thread is: outside the library, before the first lock of a request, with
the lock but before its send, before the second lock, before the last unlock, in the parts of the
announcement loop of `init_pub`, in a call that waits, or before the last test of `errcode` with the
value to return when it is 0. -/
inductive AppPc
  | idle
  | calling (r : Request)
  | locked (r : Request)
  | waiting (r : Request)
  | relocked (r : Request)
  | announce (gid : Cliid) (numSubs nsubs : Int)
  | announced (gid : Cliid) (numSubs nsubs : Int)
  | drain (gid : Cliid) (numSubs nsubs : Int)
  | popping
  | receiving
  | joining
  | testing (api : Api) (v : Int)
  deriving DecidableEq

/-- Where the constructor is: before its second lock, before its unlock, or done. -/
inductive CtorPc
  | waiting | relocked | returned | threw
  deriving DecidableEq

/-- Who locked `sync_mtx`. Any thread may unlock it, so no step depends on it. -/
inductive Owner (τ : Type)
  | ctor
  | app (t : τ)
  deriving DecidableEq

/-! ## The state -/

/-- A `comm_handler` with its threads and sockets. -/
structure CommHandler (τ : Type) where
  /-- The internal id, `IDE2I(cparam.id)`. -/
  id : Cliid
  acceptConns : Bool
  errcode : Nat
  clientmap : Cliid → Option Bool
  publishermap : Cliid → Option Bool
  clientq : List Cliid
  mtx : Option (Owner τ)
  ctor : CtorPc
  pc : CommPc τ
  app : τ → AppPc
  /-- The pipes in front of the sockets that the comm thread reads. -/
  msgq : List (τ × Cliid × Msg τ)
  connSock : List (τ × Cliid × Bytes)
  pubSendpull : List (τ × Cliid × Msg τ)
  subpull : List (τ × Bytes)
  pubstartPull : List (τ × Bytes)
  shutdownSock : Nat
  routerIn : List (Cliid × Msg τ)
  monitorSock : List MonitorEvent
  subSock : List (Cliid × Msg τ)
  /-- The identities the ROUTER socket knows: a send to another one fails
  (`ZMQ_ROUTER_MANDATORY`). -/
  peers : List Cliid
  routerOut : List (Cliid × Msg τ)
  /-- The threads whose `taskpull` / `suberq_pull` socket exists, and the pipes to them. -/
  taskPullers : List τ
  taskPipes : List (τ × Nat × Cliid × Msg τ)
  suberPullers : List τ
  suberPipes : List (τ × Cliid × Msg τ)
  pubOut : List (Cliid × Msg τ)
  routerConns : List (Cliid × Bytes)
  pubBinds : List Bytes
  subConns : List Bytes
  subGroups : List Cliid
  /-- Everything passed to `send` and pushed on `msgq`, everything pushed so far on `taskq`, `suberq`
  and `clientq`, the messages of which the `msgq` block has handed `len` bytes to `router_sock`, the
  items given out by the receive calls (with their position in `taskLog`) and the returned values. -/
  sendLog : List (τ × Cliid × Msg τ)
  taskLog : List (Cliid × Msg τ)
  suberLog : List (Cliid × Msg τ)
  clientLog : List Cliid
  routerLog : List (τ × Cliid × Msg τ)
  received : List (Nat × τ × Cliid × Bytes)
  rets : List (τ × Api × Int)

/-- The state in which the constructor has created the comm thread: `sync_mtx` is held by the
constructor, nothing has been sent. Source: `comm_handler.hpp`, `comm_handler`. -/
def CommHandler.init (τ : Type) (id : Cliid) (acceptConns : Bool) : CommHandler τ where
  id := ide2i id
  acceptConns := acceptConns
  errcode := 0
  clientmap := fun _ => none
  publishermap := fun _ => none
  clientq := []
  mtx := some .ctor
  ctor := .waiting
  pc := .startup .setsockopt
  app := fun _ => .idle
  msgq := []
  connSock := []
  pubSendpull := []
  subpull := []
  pubstartPull := []
  shutdownSock := 0
  routerIn := []
  monitorSock := []
  subSock := []
  peers := []
  routerOut := []
  taskPullers := []
  taskPipes := []
  suberPullers := []
  suberPipes := []
  pubOut := []
  routerConns := []
  pubBinds := []
  subConns := []
  subGroups := []
  sendLog := []
  taskLog := []
  suberLog := []
  clientLog := []
  routerLog := []
  received := []
  rets := []

variable {τ : Type} [DecidableEq τ]

namespace CommHandler

/-- `pthread_mutex_unlock(&sync_mtx)` by the comm thread. -/
def unlock (s : CommHandler τ) : CommHandler τ := { s with mtx := none }

/-- `comm->errcode = 1; return NULL;` -/
def failed (s : CommHandler τ) (e : Exit) : CommHandler τ := { s with errcode := 1, pc := .exited e }

/-- Which of the polled sockets has something to read. -/
def ready (s : CommHandler τ) : Block → Bool
  | .msgq => !s.msgq.isEmpty
  | .router => !s.routerIn.isEmpty
  | .monitor => !s.monitorSock.isEmpty
  | .conn => !s.connSock.isEmpty
  | .pubSend => !s.pubSendpull.isEmpty
  | .sub => !s.subpull.isEmpty
  | .subSock => !s.subSock.isEmpty
  | .pubStart => !s.pubstartPull.isEmpty
  | .shutdown => s.shutdownSock ≠ 0

/-! ## The comm thread -/

/-- Item 0: forward one message of `msgq`, with the length that `recv_msg` gives. The result of the
send is not looked at; a ROUTER socket in mandatory mode refuses a peer it does not know. -/
def msgqBlock (s : CommHandler τ) (t : τ) (sent : Bool) (rest : List Block) :
    Option (CommHandler τ) :=
  match pop t s.msgq with
  | none => none
  | some ((cid, m), q) =>
      if recvLen m.data < 0 then none
      else if sent then
        if cid ∈ s.peers then
          some { s with msgq := q, routerOut := s.routerOut ++ [(cid, m.forwarded)],
                        routerLog := s.routerLog ++ [(t, cid, m)], pc := .blocks rest }
        else none
      else some { s with msgq := q, pc := .blocks rest }

/-- Where the router block puts a message: on `suberq`, on `clientq` or on `taskq`. The `false`
entry of `clientmap` is the branch of a reconnected client. -/
inductive RouterDest
  | suber | newClient | reconnected | task
  deriving DecidableEq

/-- The case analysis of the router block. Source: `comm_handler.cpp`, `start_handler`,
`router_sock` block. -/
def routerDest (clientmap : Cliid → Option Bool) (cid : Cliid) (data : Bytes) : RouterDest :=
  if IsSubInit data then .suber
  else
    match clientmap cid with
    | none => .newClient
    | some false => .reconnected
    | some true => .task

/-- Item 1: take one message of peer `c` from the ROUTER socket. A `sub_hello` goes on with its ten
bytes, which is what `len` says there. -/
def routerBlock (s : CommHandler τ) (c : Cliid) (rest : List Block) : Option (CommHandler τ) :=
  match pop c s.routerIn with
  | none => none
  | some (m, q) =>
      if recvLen m.data < 0 then none
      else
        match routerDest s.clientmap c m.data with
        | .suber => some { s with routerIn := q, pc := .pushSuber c m.forwarded rest }
        | .newClient | .reconnected =>
            some { s with routerIn := q, clientmap := Function.update s.clientmap c (some true),
                          clientq := s.clientq ++ [idi2e c], clientLog := s.clientLog ++ [idi2e c],
                          pc := .blocks rest }
        | .task => some { s with routerIn := q, pc := .pushTask c m.forwarded rest }

/-- Item 3: an event of the ROUTER socket's monitor. -/
def monitorBlock (s : CommHandler τ) (rest : List Block) : Option (CommHandler τ) :=
  match s.monitorSock with
  | [] => none
  | .malformed :: q => some { s with monitorSock := q, pc := .aborted }
  | .other _ :: q => some ({ s with monitorSock := q }.failed (.block .monitor))
  | _ :: q => some { s with monitorSock := q, pc := .blocks rest }

/-- Item 4: connect the ROUTER socket, note the destination in `clientmap`, then go and say hello.
A failing connect hands the mutex back before the thread dies. -/
def connBlock (s : CommHandler τ) (t : τ) (behind : Bytes) (ok : Bool) (rest : List Block) :
    Option (CommHandler τ) :=
  match pop t s.connSock with
  | none => none
  | some ((dest, text), q) =>
      if recvLen text < 0 then none
      else if ok then
        some { s with connSock := q, routerConns := s.routerConns ++ [(dest, cstr text behind)],
                      clientmap := Function.update s.clientmap dest (some true),
                      pc := .hello t dest rest }
      else some (({ s with connSock := q }.failed (.block .conn)).unlock)

/-- The loop of item 4 that sends the hello until the send succeeds, then releases the caller. -/
def helloStep (s : CommHandler τ) (dest : Cliid) (ok : Bool) (rest : List Block) :
    Option (CommHandler τ) :=
  if ok then
    if dest ∈ s.peers then
      some ({ s with routerOut := s.routerOut ++ [(dest, Msg.mk commHandlerInit .comm)],
                     pc := .blocks rest }.unlock)
    else none
  else some s

/-- Item 5: publish one message. -/
def pubSendBlock (s : CommHandler τ) (t : τ) (ok : Bool) (rest : List Block) :
    Option (CommHandler τ) :=
  match pop t s.pubSendpull with
  | none => none
  | some ((gid, m), q) =>
      if recvLen m.data < 0 then none
      else if gid < 0 then some ({ s with pubSendpull := q }.failed (.block .pubSend))
      else if ok then
        some { s with pubSendpull := q, pubOut := s.pubOut ++ [(gid, m.forwarded)],
                      pc := .blocks rest }
      else some ({ s with pubSendpull := q }.failed (.block .pubSend))

/-- The address a subscription text asks to connect to, if it has one. -/
def subRequestAddr (text behind : Bytes) : List Bytes :=
  let addr := beforeAmp (cstr text behind)
  if addr = [] then [] else [addr]

/-- The groups a subscription text asks for, as the parsing loop reads them. -/
def subRequestGids (junk : Cliid) (text behind : Bytes) : Option (List Cliid) :=
  let gids := afterAmp (cstr text behind)
  subGids junk (gids.length + 1) { rest := gids, eof := false, fail := false }

/-- Item 6: serve a subscription request. `fails` picks the socket call that throws: `some 0` the
connect, `some (k + 1)` the `k`-th `setsockopt`. Nothing is unlocked here. -/
def subBlock (s : CommHandler τ) (t : τ) (behind : Bytes) (junk : Cliid) (fails : Option Nat)
    (rest : List Block) : Option (CommHandler τ) :=
  match pop t s.subpull with
  | none => none
  | some (text, q) =>
      if recvLen text < 0 then none
      else if subRequestAddr text behind ≠ [] ∧ fails = some 0 then
        some ({ s with subpull := q }.failed (.block .sub))
      else
        let s := { s with subpull := q, subConns := s.subConns ++ subRequestAddr text behind }
        match subRequestGids junk text behind, fails with
        | none, _ => some { s with pc := .spinning }
        | some ids, some (k + 1) =>
            if k < ids.length then
              some ({ s with subGroups := s.subGroups ++ ids.take k }.failed (.block .sub))
            else none
        | some ids, _ => some { s with subGroups := s.subGroups ++ ids, pc := .blocks rest }

/-- The answer to an announcement of publisher `pid`, when its send succeeds. -/
def subReply (sent : Bool) (pid : Cliid) : List (Cliid × Msg τ) :=
  if sent then [(pid, ⟨commHandlerSubInit, .comm⟩)] else []

/-- Item 7: a message on the SUB socket. An announcement (recognised by its first bytes, whatever
the length of the payload) of a publisher not yet in `publishermap` is answered over the ROUTER
socket and releases `sync_mtx`; anything else is a task. The result of the answer is not looked
at. -/
def subSockBlock (s : CommHandler τ) (behind : Bytes) (junk : Cliid) (sent : Bool)
    (rest : List Block) : Option (CommHandler τ) :=
  match s.subSock with
  | [] => none
  | (gid, m) :: q =>
      if recvLen m.data < 0 then none
      else if (m.data ++ behind).take commHandlerPubInit.length = commHandlerPubInit then
        let pid := pubId junk (cstr m.data behind)
        if s.publishermap pid = none then
          if sent ∧ pid ∉ s.peers then none
          else
            some ({ s with subSock := q, publishermap := Function.update s.publishermap pid (some true),
                           routerOut := s.routerOut ++ subReply sent pid,
                           pc := .blocks rest }.unlock)
        else some { s with subSock := q, pc := .blocks rest }
      else some { s with subSock := q, pc := .pushTask (ide2i gid) m.forwarded rest }

/-- Item 8: bind the PUB socket and release the caller. A failing bind does not. -/
def pubStartBlock (s : CommHandler τ) (t : τ) (behind : Bytes) (ok : Bool) (rest : List Block) :
    Option (CommHandler τ) :=
  match pop t s.pubstartPull with
  | none => none
  | some (text, q) =>
      if recvLen text < 0 then none
      else if ok then
        some ({ s with pubstartPull := q, pubBinds := s.pubBinds ++ [cstr text behind],
                       pc := .blocks rest }.unlock)
      else some ({ s with pubstartPull := q }.failed (.block .pubStart))

/-- A `recv_msg` of a block that returns a negative value: the receive fails, or the length of what
it received is negative as an `int`. The thread ends and never reads its sockets again, so they stay
as they are. Only the block of `conn_sock` hands the mutex back; the shutdown block receives nothing.
-/
def recvFail (s : CommHandler τ) : Block → Option (CommHandler τ)
  | .conn => some ((s.failed (.block .conn)).unlock)
  | .shutdown => none
  | b => some (s.failed (.block b))

/-- The send on `taskq`: it goes to a puller with room, or fails and the message is gone. -/
def pushTaskStep (hwm : Nat) (s : CommHandler τ) (cid : Cliid) (m : Msg τ) (dst : Option τ)
    (rest : List Block) : Option (CommHandler τ) :=
  match dst with
  | some t =>
      if t ∈ s.taskPullers ∧ (pipe t s.taskPipes).length < hwm then
        some { s with taskPipes := s.taskPipes ++ [(t, s.taskLog.length, cid, m)],
                      taskLog := s.taskLog ++ [(cid, m)], pc := .blocks rest }
      else none
  | none => some { s with pc := .blocks rest }

/-- The send on `suberq`, after which the router block unlocks `sync_mtx` whatever its result. -/
def pushSuberStep (hwm : Nat) (s : CommHandler τ) (cid : Cliid) (m : Msg τ) (dst : Option τ)
    (rest : List Block) : Option (CommHandler τ) :=
  match dst with
  | some t =>
      if t ∈ s.suberPullers ∧ (pipe t s.suberPipes).length < hwm then
        some ({ s with suberPipes := s.suberPipes ++ [(t, cid, m)],
                       suberLog := s.suberLog ++ [(cid, m)], pc := .blocks rest }.unlock)
      else none
  | none => some ({ s with pc := .blocks rest }.unlock)

/-- One call group of the startup. Only a failing `zmq_socket_monitor` sets `errcode`; every failure
unlocks `sync_mtx` and returns. -/
def startupStep (s : CommHandler τ) (st : Startup) (ok : Bool) : CommHandler τ :=
  match st with
  | .setsockopt =>
      if ok then { s with pc := .startup .socketMonitor }
      else { s with pc := .exited (.startup .setsockopt) }.unlock
  | .socketMonitor =>
      if ok then { s with pc := .startup .monitorConnect }
      else (s.failed (.startup .socketMonitor)).unlock
  | .monitorConnect =>
      if ok then
        if s.acceptConns then { s with pc := .startup .bind }
        else { s with pc := .blocks [] }.unlock
      else { s with pc := .exited (.startup .monitorConnect) }.unlock
  | .bind =>
      if ok then { s with pc := .blocks [] }.unlock
      else { s with pc := .exited (.startup .bind) }.unlock

end CommHandler

/-- The labels of the comm thread: the next startup call; a poll (and whether it throws); the
blocks with their outcomes; a negative `recv_msg`; the hello loop; the end of a send on `taskq` or
`suberq`. -/
inductive CommLabel (τ : Type)
  | startup (ok : Bool)
  | poll (ok : Bool)
  | msgq (t : τ) (sent : Bool)
  | router (c : Cliid)
  | monitor
  | conn (t : τ) (behind : Bytes) (ok : Bool)
  | pubSend (t : τ) (ok : Bool)
  | sub (t : τ) (behind : Bytes) (junk : Cliid) (fails : Option Nat)
  | subSock (behind : Bytes) (junk : Cliid) (sent : Bool)
  | pubStart (t : τ) (behind : Bytes) (ok : Bool)
  | shutdown
  | recvFail
  | hello (ok : Bool)
  | push (dst : Option τ)

namespace CommHandler

/-- One step of the comm thread. Source: `comm_handler.cpp`, `start_handler`. -/
def commStep (hwm : Nat) (s : CommHandler τ) (l : CommLabel τ) : Option (CommHandler τ) :=
  match s.pc with
  | .startup st =>
      match l with
      | .startup ok => some (s.startupStep st ok)
      | _ => none
  | .blocks [] =>
      match l with
      | .poll true =>
          let revents := blockOrder.filter s.ready
          if revents = [] then none else some { s with pc := .blocks revents }
      | .poll false => some (s.failed .poll)
      | _ => none
  | .blocks (b :: rest) =>
      match b, l with
      | b, .recvFail => s.recvFail b
      | .msgq, .msgq t sent => s.msgqBlock t sent rest
      | .router, .router c => s.routerBlock c rest
      | .monitor, .monitor => s.monitorBlock rest
      | .conn, .conn t behind ok => s.connBlock t behind ok rest
      | .pubSend, .pubSend t ok => s.pubSendBlock t ok rest
      | .sub, .sub t behind junk fails => s.subBlock t behind junk fails rest
      | .subSock, .subSock behind junk sent => s.subSockBlock behind junk sent rest
      | .pubStart, .pubStart t behind ok => s.pubStartBlock t behind ok rest
      | .shutdown, .shutdown => some { s with pc := .exited .shutdown }
      | _, _ => none
  | .hello _ dest rest =>
      match l with
      | .hello ok => s.helloStep dest ok rest
      | _ => none
  | .pushTask cid m rest =>
      match l with
      | .push dst => pushTaskStep hwm s cid m dst rest
      | _ => none
  | .pushSuber cid m rest =>
      match l with
      | .push dst => pushSuberStep hwm s cid m dst rest
      | _ => none
  | .spinning | .aborted | .exited _ => none

end CommHandler

end CommTest.Zmq
