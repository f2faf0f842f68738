import CommTest.Lib.Mem
import CommTest.Zmq.Play

/-!
# The basic test and the chain test

The programs of `test/basic` and `test/chain`. A server waits for its clients, sends each of them its
own id as a task and takes one message of each. A client connects to its server, waits for a task and
answers with a greeting. A `server_client` is both: it asks its own server for a task before it hands
out tasks, and greets its server when all its clients have greeted it. So the nodes are a forest of
any shape, and tasks go down and greetings up.

* `Statement` is a call with the test of what it returns, `run` the script of a list of them;
  `server`, `serverClient` and `client` are the programs.
* `Orderly` is what the proof needs of a program: a node sends only after it has accepted its clients
  and has got its own task, and every message once.
* `received_spec`: what is received is a task of the server or a greeting of a client that has been
  accepted. It goes from a message to the call that sent it, to what its sender had received before.
* `chainTest` puts them together: no test of any program fails as long as no comm thread does, and a
  program that is through has heard from exactly its server and its clients.
-/

set_option linter.unusedSectionVars false

namespace CommTest.Zmq

open FairQueue Lts

variable {N : Type} [DecidableEq N]

/-! ## Programs -/

/-- The calls of the test programs, each with its own test: `get_one_connection`; `connect_to`; the
`recv` of a task, from the server; the `send` of its id to `clients[i]`; the `recv` of a greeting; the
`send` of a greeting to the server; `shutdown`. -/
inductive Statement
  | accept
  | connect (sip sport : Bytes) (sid : Cliid)
  | recvTask (sid : Cliid)
  | task (i : Nat)
  | recv
  | greet (sid : Cliid)
  | shutdown
  deriving DecidableEq

/-- The bytes of an id in memory. -/
def idBytes (x : Cliid) : Bytes := Mem.encode32 x.toUInt32

/-- `"hello"` with its terminator. -/
def hello : Bytes := ascii "hello" ++ [0]

/-- `clients[i]`: the array is filled in the order in which `get_one_connection` returns. -/
def clientAt (rets : List (N × Api × Int)) (i : Nat) : Cliid :=
  Int32.ofInt ((handedOut rets)[i]?.getD 0)

namespace Statement

/-- The call of a statement, after the calls `rets`. -/
def call (rets : List (N × Api × Int)) : Statement → AppLabel
  | accept => .getOneConnection
  | connect sip sport sid => .connectTo sip sport sid
  | recvTask _ | recv => .recv
  | task i => .send (clientAt rets i) (idBytes (clientAt rets i))
  | greet sid => .send sid hello
  | shutdown => .shutdown

/-- The test of the value `v`, for the `recv` of a task also of the id it has given. What `connect_to`
and `shutdown` return is only logged; `cid < 0` ends the program, the other tests are asserts. -/
def test (v : Int) (rid : Option Cliid) : Statement → Bool
  | accept => decide (0 ≤ v)
  | recvTask sid => decide (0 < v ∧ rid = some sid)
  | task _ => decide (v = 4)
  | recv | greet _ => decide (0 < v)
  | connect _ _ _ | shutdown => true

/-- The id of the server, where a statement names it. -/
def sid : Statement → Option Cliid
  | connect _ _ sid | recvTask sid | greet sid => some sid
  | _ => none

def isConnect : Statement → Bool
  | connect _ _ _ => true
  | _ => false

def sends : Statement → Bool
  | task _ | greet _ => true
  | _ => false

def receives : Statement → Bool
  | recvTask _ | recv => true
  | _ => false

end Statement

/-- The id that came with the first item received; the `recv` of a task is the first one of its
program. -/
def firstId (received : List (Nat × N × Cliid × Bytes)) : Option Cliid :=
  received.head?.map fun e => e.2.2.1

/-- A program as a script: it goes on as long as its tests hold. -/
def run (prog : List Statement) : Script N := fun rets received =>
  if (rets.zip prog).all fun e => e.2.test e.1.2.2 (firstId received) then
    prog[rets.length]?.map fun st => st.call rets
  else none

/-- The two loops over the clients. Source: `test/basic/server.cpp`, `test/chain/server_client.cpp`. -/
def exchange (numClients : Nat) : List Statement :=
  (List.range numClients).map .task ++ List.replicate numClients .recv

/-- Source: `test/basic/server.cpp` and `test/chain/server.cpp`, `main`. -/
def server (numClients : Nat) : List Statement :=
  List.replicate numClients .accept ++ (exchange numClients ++ [.shutdown])

/-- Source: `test/chain/server_client.cpp`, `main`. -/
def serverClient (numClients : Nat) (sip sport : Bytes) (sid : Cliid) : List Statement :=
  (List.replicate (numClients - 1) .accept ++ [.connect sip sport sid, .recvTask sid, .accept]) ++
    (exchange numClients ++ [.greet sid, .shutdown])

/-- Source: `test/basic/client.cpp` and `test/chain/client.cpp`, `main`. -/
def client (sip sport : Bytes) (sid : Cliid) : List Statement :=
  [.connect sip sport sid, .recvTask sid] ++ [.greet sid, .shutdown]

/-! ## Orderly programs -/

/-- **What the test programs have in common**, for a node whose server is `parent`. -/
structure Orderly (ext : N → Cliid) (parent : Option N) (prog : List Statement) : Prop where
  /-- Nobody is asked, waited for or greeted but the server. -/
  sid : ∀ st ∈ prog, ∀ x, st.sid = some x → ∃ p, parent = some p ∧ x = ext p
  connects : prog.countP Statement.isConnect ≤ 1
  once : ∀ st, st.sends = true → prog.count st ≤ 1
  /-- The clients are accepted, and a task of the own server has been received, before anything is
  sent. -/
  ready : ∃ pre, pre <+: prog ∧ (∀ st ∈ pre, st.sends = false) ∧
    (∀ i, .task i ∈ prog → i < pre.count .accept) ∧ ∀ p, parent = some p → .recvTask (ext p) ∈ pre
  /-- One message of every client and of the server is taken. -/
  receives : prog.countP Statement.receives = prog.count .accept + parent.toList.length
  ends : ∃ body, prog = body ++ [.shutdown]

theorem run_eq_some {prog : List Statement} {rets : List (N × Api × Int)}
    {r : List (Nat × N × Cliid × Bytes)} {l : AppLabel} (h : run prog rets r = some l) :
    (∀ (i : Nat) e st, rets[i]? = some e → prog[i]? = some st → st.test e.2.2 (firstId r) = true) ∧
      ∃ st, prog[rets.length]? = some st ∧ st.call rets = l := by
  unfold run at h
  split_ifs at h with htests
  refine ⟨?_, Option.map_eq_some_iff.mp h⟩
  intro i e st he hst
  exact List.all_eq_true.mp htests (e, st)
    (List.mem_of_getElem? (List.getElem?_zip_eq_some.mpr ⟨he, hst⟩))

theorem call_connectTo {rets : List (N × Api × Int)} {st : Statement} {ip port : Bytes}
    {dest : Cliid} (h : st.call rets = .connectTo ip port dest) : st = .connect ip port dest := by
  cases st <;> cases h
  rfl

theorem call_send {rets : List (N × Api × Int)} {st : Statement} {cid : Cliid} {data : Bytes}
    (h : st.call rets = .send cid data) :
    (∃ i, st = .task i ∧ cid = clientAt rets i ∧ data = idBytes cid) ∨
      (st = .greet cid ∧ data = hello) := by
  cases st <;> cases h
  · exact .inl ⟨_, rfl, rfl, rfl⟩
  · exact .inr ⟨rfl, rfl⟩

theorem firstId_of_prefix {r r' : List (Nat × N × Cliid × Bytes)} (h : r <+: r') {x : Cliid}
    (hx : firstId r = some x) : firstId r' = some x := by
  obtain ⟨rest, rfl⟩ := h
  cases r with
  | nil => cases hx
  | cons e r => exact hx

section

variable {ext : N → Cliid} {parent : N → Option N} {prog : N → List Statement}
  {ls : List (NetLabel N N)} {w : N → CommHandler N}

/-- What the programs send is plain: four bytes, or the greeting. -/
theorem plain_of_send {n : N} {h : List (N × Api × Int)} {r : List (Nat × N × Cliid × Bytes)}
    {cid : Cliid} {data : Bytes} (hcall : run (prog n) h r = some (.send cid data)) : Plain data := by
  obtain ⟨-, st, -, hl⟩ := run_eq_some hcall
  have hplain : data.length < 2 ^ 31 → data ≠ commHandlerSubInit → Plain data :=
    fun hlen hne => ⟨hne, .inr hlen⟩
  rcases call_send hl with ⟨i, -, -, rfl⟩ | ⟨-, rfl⟩
  · have hlen : (idBytes cid).length = 4 := Mem.length_encode32 _
    apply hplain
    · rw [hlen]
      decide
    · intro heq
      rw [heq] at hlen
      cases hlen
  · exact hplain (by decide) (by decide)

/-- **The programs keep to what the library needs.** -/
theorem civil_run (hinj : Function.Injective (nodeKey ext))
    (hord : ∀ n, Orderly ext (parent n) (prog n))
    (htree : ∀ a b, parent a = some b → parent b ≠ some a) :
    Civil ext fun n => run (prog n) := by
  -- who is connected to is the server
  have hconnect : ∀ n (h : List (N × Api × Int)) r ip port dest,
      run (prog n) h r = some (.connectTo ip port dest) →
      (prog n)[h.length]? = some (.connect ip port dest) ∧ ∃ p, parent n = some p ∧ dest = ext p := by
    intro n h r ip port dest hcall
    obtain ⟨-, st, hst, hl⟩ := run_eq_some hcall
    obtain rfl := call_connectTo hl
    exact ⟨hst, (hord n).sid _ (List.mem_of_getElem? hst) dest rfl⟩
  refine ⟨?_, ?_, ?_, ?_⟩
  · intro n h r l hcall
    obtain ⟨-, st, -, rfl⟩ := run_eq_some hcall
    cases st <;> trivial
  · intro n h r cid data hcall
    exact plain_of_send hcall
  · intro n h r ip port dest h' r' ip' port' dest' hcall hcall'
    exact Count.index_eq_of_countP (hord n).connects (hconnect n h r _ _ _ hcall).1 rfl
      (hconnect n h' r' _ _ _ hcall').1 rfl
  · rintro a b d d' ⟨h, r, ip, port, hcall⟩ ⟨h', r', ip', port', hcall'⟩ hd hd'
    obtain ⟨-, p, hp, rfl⟩ := hconnect a h r ip port d hcall
    obtain ⟨-, p', hp', rfl⟩ := hconnect b h' r' ip' port' d' hcall'
    obtain rfl := hinj hd
    obtain rfl := hinj hd'
    exact htree _ _ hp hp'

/-! ## What is sent -/

/-- The statement of a call that has returned. -/
theorem returned_statement (hw : Playing (fun n => run (prog n)) ext ls w) {n : N} {i : Nat}
    {e : N × Api × Int} (hi : (w n).rets[i]? = some e) :
    ∃ st, (prog n)[i]? = some st ∧ (w n).Answers (st.call ((w n).rets.take i)) e.2.1 e.2.2 := by
  obtain ⟨l, r, -, hcall, hans⟩ := (hw.conduct n).returned i e hi
  obtain ⟨-, st, hst, rfl⟩ := run_eq_some hcall
  have hlt := (List.getElem?_eq_some_iff.mp hi).1
  rw [List.length_take, Nat.min_eq_left hlt.le] at hst
  exact ⟨st, hst, hans⟩

/-- The clients that have been handed out are other nodes, whose server this one is. -/
theorem handedOut_spec (hinj : Function.Injective (nodeKey ext))
    (hord : ∀ n, Orderly ext (parent n) (prog n))
    (hw : Playing (fun n => run (prog n)) ext ls w) {n : N} {v : Int}
    (hv : v ∈ handedOut (w n).rets) : ∃ m, v = (ext m).toInt ∧ parent m = some n := by
  obtain ⟨taken, hlog, hout⟩ := (hw.acquainted.desk n).order
  rw [hout] at hv
  obtain ⟨c, hc, rfl⟩ := List.mem_map.mp (List.mem_filter.mp hv).1
  obtain ⟨as, hclients, -, has⟩ := hw.acquainted.clients n
  have hc : c ∈ as.map ext := hclients ▸ hlog ▸ List.mem_append_left _ hc
  obtain ⟨m, hm, rfl⟩ := List.mem_map.mp hc
  obtain ⟨ip, port, dest, ⟨h, r, -, -, hcall⟩, hdest⟩ :=
    (hw.conduct m).connected _ (List.mem_append_right _ (has m hm).2.2)
  obtain ⟨-, st, hst, hl⟩ := run_eq_some hcall
  obtain rfl := call_connectTo hl
  obtain ⟨p, hp, rfl⟩ := (hord m).sid _ (List.mem_of_getElem? hst) dest rfl
  obtain rfl := hinj hdest
  exact ⟨m, rfl, hp⟩

/-- No client is handed out twice. -/
theorem handedOut_nodup (hinj : Function.Injective ext)
    (hw : Playing (fun n => run (prog n)) ext ls w) (n : N) : (handedOut (w n).rets).Nodup := by
  obtain ⟨taken, hlog, hout⟩ := (hw.acquainted.desk n).order
  obtain ⟨as, hclients, hnodup, -⟩ := hw.acquainted.clients n
  have hall : (taken ++ (w n).clientq).Nodup := by
    rw [← hlog, hclients]
    exact hnodup.map hinj
  rw [hout]
  exact (hall.of_append_left.map fun _ _ => Int32.toInt_inj.mp).filter _

/-- Before a program sends, it has passed the statements up to its first send. -/
theorem passed_of_send {parent : Option N} {prog : List Statement} (hord : Orderly ext parent prog)
    {h : List (N × Api × Int)} {r : List (Nat × N × Cliid × Bytes)} {cid : Cliid} {data : Bytes}
    (hcall : run prog h r = some (.send cid data)) :
    ∃ pre : List Statement, (∀ (j : Nat) st, pre[j]? = some st →
        ∃ e, h[j]? = some e ∧ prog[j]? = some st ∧ st.test e.2.2 (firstId r) = true) ∧
      (∀ i, .task i ∈ prog → i < pre.count .accept) ∧
      ∀ p, parent = some p → .recvTask (ext p) ∈ pre := by
  obtain ⟨htests, st, hst, hl⟩ := run_eq_some hcall
  obtain ⟨pre, ⟨rest, hrest⟩, hquiet, haccepts, htask⟩ := hord.ready
  have hsends : st.sends = true := by
    rcases call_send hl with ⟨i, rfl, -, -⟩ | ⟨rfl, -⟩ <;> rfl
  have hle : pre.length ≤ h.length := by
    by_contra hlt
    rw [← hrest, List.getElem?_append_left (by omega)] at hst
    rw [hquiet st (List.mem_of_getElem? hst)] at hsends
    cases hsends
  refine ⟨pre, ?_, haccepts, htask⟩
  intro j st hj
  have hlt := (List.getElem?_eq_some_iff.mp hj).1
  have hprog : prog[j]? = some st := by
    rw [← hrest, List.getElem?_append_left hlt, hj]
  obtain ⟨e, he⟩ : ∃ e, h[j]? = some e := ⟨_, List.getElem?_eq_getElem (by omega)⟩
  exact ⟨e, he, hprog, htests j e st he hprog⟩

/-- `clients[i]` is set when the task for it is sent. -/
theorem lt_length_handedOut (hord : ∀ n, Orderly ext (parent n) (prog n))
    (hw : Playing (fun n => run (prog n)) ext ls w) {n : N} {h : List (N × Api × Int)}
    {r : List (Nat × N × Cliid × Bytes)} {cid : Cliid} {data : Bytes} {i : Nat}
    (hh : h <+: (w n).rets) (hcall : run (prog n) h r = some (.send cid data))
    (hi : .task i ∈ prog n) : i < (handedOut h).length := by
  obtain ⟨pre, hpassed, haccepts, -⟩ := passed_of_send (hord n) hcall
  apply (haccepts i hi).trans_le
  rw [handedOut, List.length_filterMap_eq_countP]
  apply Count.countP_le_countP
  intro j x hx hp
  obtain rfl := beq_iff_eq.mp hp
  obtain ⟨e, he, hprog, htest⟩ := hpassed j _ hx
  obtain ⟨rest, hrest⟩ := hh
  have hlt := (List.getElem?_eq_some_iff.mp he).1
  obtain ⟨st, hst, hans⟩ := returned_statement hw (n := n) (i := j) (e := e)
    (by rw [← hrest, List.getElem?_append_left hlt, he])
  obtain rfl := Option.some.inj (hprog.symm.trans hst)
  have hnonneg : 0 ≤ e.2.2 := of_decide_eq_true htest
  refine ⟨e, he, ?_⟩
  rw [if_pos ⟨hans.1, by omega⟩]
  rfl

/-- **What a program sends**: a task to a client that it was handed out, or a greeting to its server;
and the first thing it has received is its own task. -/
theorem sent_spec (hinj : Function.Injective (nodeKey ext))
    (hord : ∀ n, Orderly ext (parent n) (prog n))
    (hw : Playing (fun n => run (prog n)) ext ls w) {n : N} {h : List (N × Api × Int)}
    {r : List (Nat × N × Cliid × Bytes)} {cid : Cliid} {data : Bytes} (hh : h <+: (w n).rets)
    (hr : r <+: (w n).received) (hcall : run (prog n) h r = some (.send cid data)) :
    ((∃ i m, (prog n)[h.length]? = some (.task i) ∧
        (handedOut (w n).rets)[i]? = some (ext m).toInt ∧ parent m = some n ∧ cid = ext m ∧
        data = idBytes (ext m)) ∨
      ∃ p, (prog n)[h.length]? = some (.greet (ext p)) ∧ parent n = some p ∧ cid = ext p ∧
        data = hello) ∧
    ∀ p, parent n = some p → firstId (w n).received = some (ext p) := by
  obtain ⟨-, st, hst, hl⟩ := run_eq_some hcall
  refine ⟨?_, ?_⟩
  · rcases call_send hl with ⟨i, rfl, hcid, rfl⟩ | ⟨rfl, rfl⟩
    · have hi := lt_length_handedOut hord hw hh hcall (List.mem_of_getElem? hst)
      have hget : (handedOut (w n).rets)[i]? = some (handedOut h)[i] := by
        obtain ⟨rest, hrest⟩ := hh
        rw [← hrest, handedOut_append, List.getElem?_append_left hi, List.getElem?_eq_getElem hi]
      obtain ⟨m, hv, hm⟩ := handedOut_spec hinj hord hw (List.mem_of_getElem? hget)
      have hext : cid = ext m := by
        rw [hcid, clientAt, List.getElem?_eq_getElem hi, Option.getD_some, hv, Int32.ofInt_toInt]
      exact .inl ⟨i, m, hst, hv ▸ hget, hm, hext, by rw [hext]⟩
    · obtain ⟨p, hp, rfl⟩ := (hord n).sid _ (List.mem_of_getElem? hst) _ rfl
      exact .inr ⟨p, hst, hp, rfl, rfl⟩
  · intro p hp
    obtain ⟨pre, hpassed, -, htask⟩ := passed_of_send (hord n) hcall
    obtain ⟨j, hj⟩ := List.mem_iff_getElem?.mp (htask p hp)
    obtain ⟨e, -, -, htest⟩ := hpassed j _ hj
    exact firstId_of_prefix hr (of_decide_eq_true htest).2

/-- **A node sends another one a single message**: the server one task, the client one greeting. -/
theorem sent_once (hinj : Function.Injective ext) (hext : ∀ n, ExtId (ext n))
    (hord : ∀ n, Orderly ext (parent n) (prog n))
    (htree : ∀ a b, parent a = some b → parent b ≠ some a)
    (hw : Playing (fun n => run (prog n)) ext ls w) (a n : N) :
    (w a).sendLog.countP (fun e => e.2.1 = nodeKey ext n) ≤ 1 := by
  have hkey := nodeKey_injective hinj hext
  apply (hw.conduct a).sends_once
  intro h r cid data h' r' cid' data' hh hr hh' hr' hcall hcall' hd hd'
  have hsame : ∀ {st : Statement}, st.sends = true → (prog a)[h.length]? = some st →
      (prog a)[h'.length]? = some st → h.length = h'.length := by
    intro st hst hget hget'
    exact Count.index_eq_of_countP ((hord a).once st hst) hget (beq_self_eq_true st) hget'
      (beq_self_eq_true st)
  obtain ⟨hsent, -⟩ := sent_spec hkey hord hw hh hr hcall
  obtain ⟨hsent', -⟩ := sent_spec hkey hord hw hh' hr' hcall'
  rcases hsent with ⟨i, m, hst, hget, hm, rfl, -⟩ | ⟨p, hst, hp, rfl, -⟩ <;>
    rcases hsent' with ⟨j, m', hst', hget', hm', rfl, -⟩ | ⟨p', hst', hp', rfl, -⟩ <;>
    obtain rfl := hkey hd <;> obtain rfl := hkey hd'
  · -- the same client stands in the array once
    have hi := (List.getElem?_eq_some_iff.mp hget).1
    have hij : i = j := by
      apply (List.getElem?_inj hi (handedOut_nodup hinj hw a)).mp
      rw [hget, hget']
    subst hij
    exact hsame rfl hst hst'
  · exact absurd hp' (htree _ _ hm)
  · exact absurd hm' (htree _ _ hp)
  · exact hsame rfl hst hst'

/-! ## What is received -/

/-- An item is a task from the server or a greeting from a client, by the call that sent it. -/
theorem received_from_call (hinj : Function.Injective ext) (hext : ∀ n, ExtId (ext n))
    (hord : ∀ n, Orderly ext (parent n) (prog n))
    (hw : Playing (fun n => run (prog n)) ext ls w) {n : N} {e : Nat × N × Cliid × Bytes}
    (he : e ∈ (w n).received) : ∃ a, e.2.2.1 = ext a ∧
      (∀ p, parent a = some p → firstId (w a).received = some (ext p)) ∧
      (parent n = some a ∧ e.2.2.2 = idBytes (ext n) ∧ (ext n).toInt ∈ handedOut (w a).rets ∨
        parent a = some n ∧ e.2.2.2 = hello) := by
  have hkey := nodeKey_injective hinj hext
  obtain ⟨a, cid, -, -, -, -, hx, ⟨h, r, hh, hr, hcall⟩, hdest⟩ :=
    hw.received_from hext (hw.plainSends fun _ _ _ _ _ => plain_of_send) he
  obtain ⟨hsent, hfirst⟩ := sent_spec hkey hord hw hh hr hcall
  refine ⟨a, hx, hfirst, ?_⟩
  rcases hsent with ⟨i, m, -, hget, hm, rfl, hdata⟩ | ⟨p, -, hp, rfl, hdata⟩
  · obtain rfl := hkey hdest
    exact .inl ⟨hm, hdata, List.mem_of_getElem? hget⟩
  · obtain rfl := hkey hdest
    exact .inr ⟨hp, hdata⟩

/-- **What is received**: a node's own id from its server, or the greeting of a client that it was
handed out; and a client greets when the node itself has got its task. -/
theorem received_spec (hinj : Function.Injective ext) (hext : ∀ n, ExtId (ext n))
    (hord : ∀ n, Orderly ext (parent n) (prog n))
    (htree : ∀ a b, parent a = some b → parent b ≠ some a)
    (hw : Playing (fun n => run (prog n)) ext ls w) {n : N} {e : Nat × N × Cliid × Bytes}
    (he : e ∈ (w n).received) :
    (∃ p, parent n = some p ∧ e.2.2.1 = ext p ∧ e.2.2.2 = idBytes (ext n) ∧
      (ext n).toInt ∈ handedOut (w p).rets) ∨
    ∃ m, parent m = some n ∧ e.2.2.1 = ext m ∧ e.2.2.2 = hello ∧
      (ext m).toInt ∈ handedOut (w n).rets ∧
      ∀ p, parent n = some p → firstId (w n).received = some (ext p) := by
  obtain ⟨a, hx, hfirst, ⟨hp, hdata, hout⟩ | ⟨hp, hdata⟩⟩ := received_from_call hinj hext hord hw he
  · exact .inl ⟨a, hp, hx, hdata, hout⟩
  · -- the client had received its task, which this node had sent
    obtain ⟨e', he', hsender⟩ : ∃ e' ∈ (w a).received, e'.2.2.1 = ext n := by
      obtain ⟨e', hhead, hsender⟩ := Option.map_eq_some_iff.mp (hfirst n hp)
      exact ⟨e', List.mem_of_head? hhead, hsender⟩
    obtain ⟨b, hb, hfirst', hcase⟩ := received_from_call hinj hext hord hw he'
    obtain rfl := hinj (hb.symm.trans hsender)
    rcases hcase with ⟨-, -, hout⟩ | ⟨hp', -⟩
    · exact .inr ⟨a, hp, hx, hdata, hout, hfirst'⟩
    · exact absurd hp (htree _ _ hp')

/-- The first item that a node with a server receives is its task. -/
theorem firstId_spec (hinj : Function.Injective ext) (hext : ∀ n, ExtId (ext n))
    (hord : ∀ n, Orderly ext (parent n) (prog n))
    (htree : ∀ a b, parent a = some b → parent b ≠ some a)
    (hw : Playing (fun n => run (prog n)) ext ls w) {n p : N} (hp : parent n = some p)
    (hne : (w n).received ≠ []) : firstId (w n).received = some (ext p) := by
  obtain ⟨e, hhead⟩ : ∃ e, (w n).received.head? = some e := ⟨_, List.head?_eq_some_head hne⟩
  rcases received_spec hinj hext hord htree hw (List.mem_of_head? hhead) with
    ⟨q, hq, hx, -, -⟩ | ⟨m, -, -, -, -, hfirst⟩
  · obtain rfl := Option.some.inj (hp.symm.trans hq)
    rw [firstId, hhead, Option.map_some, hx]
  · exact hfirst p hp

/-- **Nobody is heard from twice.** -/
theorem senders_nodup (hinj : Function.Injective ext) (hext : ∀ n, ExtId (ext n))
    (hord : ∀ n, Orderly ext (parent n) (prog n))
    (htree : ∀ a b, parent a = some b → parent b ≠ some a)
    (hw : Playing (fun n => run (prog n)) ext ls w) (n : N) :
    ((w n).received.map fun e => e.2.2.1).Nodup := by
  have hpos : ((w n).received.map Prod.fst).Nodup := (hw.hello.receipts n).positions.of_append_right
  apply List.Nodup.map_on _ hpos.of_map
  intro e he e' he' hsame
  obtain ⟨a, hx, -, -⟩ := received_from_call hinj hext hord hw he
  apply List.inj_on_of_nodup_map hpos he he'
  have hone := sent_once hinj hext hord htree hw a n
  have hplain : PlainSends w := hw.plainSends fun _ _ _ _ _ => plain_of_send
  exact hw.received_once hinj hext hplain hone he he' hx (hsame.symm.trans hx)

/-! ## What is tested -/

/-- What is received has bytes. -/
theorem length_received_pos (hinj : Function.Injective ext) (hext : ∀ n, ExtId (ext n))
    (hord : ∀ n, Orderly ext (parent n) (prog n))
    (hw : Playing (fun n => run (prog n)) ext ls w) {n : N} {e : Nat × N × Cliid × Bytes}
    (he : e ∈ (w n).received) : (0 : Int) < e.2.2.2.length := by
  obtain ⟨a, -, -, ⟨-, hdata, -⟩ | ⟨-, hdata⟩⟩ := received_from_call hinj hext hord hw he
  · rw [hdata, idBytes, Mem.length_encode32]
    decide
  · rw [hdata]
    decide

/-- **As long as `errcode` is 0, what a call returns passes its test.** -/
theorem test_of_returned (hinj : Function.Injective ext) (hext : ∀ n, ExtId (ext n))
    (hord : ∀ n, Orderly ext (parent n) (prog n))
    (htree : ∀ a b, parent a = some b → parent b ≠ some a)
    (hw : Playing (fun n => run (prog n)) ext ls w) {n : N}
    (hacc : .accept ∈ prog n → (w n).acceptConns = true) (herr : (w n).errcode = 0) {i : Nat}
    {e : N × Api × Int} {st : Statement} (hi : (w n).rets[i]? = some e)
    (hst : (prog n)[i]? = some st) : st.test e.2.2 (firstId (w n).received) = true := by
  obtain ⟨st', hst', hans⟩ := returned_statement hw hi
  obtain rfl := Option.some.inj (hst.symm.trans hst')
  cases st with
  | accept =>
      obtain ⟨-, ⟨c, hc, hv⟩ | ⟨-, hne | hno⟩⟩ := hans
      · obtain ⟨as, hlog, -, -⟩ := hw.acquainted.clients n
        rw [hlog] at hc
        obtain ⟨m, -, rfl⟩ := List.mem_map.mp hc
        rw [hv]
        exact decide_eq_true (Int32.le_iff_toInt_le.mp (hext m).1)
      · exact absurd herr hne
      · rw [hacc (List.mem_of_getElem? hst)] at hno
        cases hno
  | recvTask sid =>
      obtain ⟨-, ⟨e', he', hv⟩ | ⟨-, hne⟩⟩ := hans
      · obtain ⟨p, hp, rfl⟩ := (hord n).sid _ (List.mem_of_getElem? hst) sid rfl
        apply decide_eq_true
        refine ⟨?_, firstId_spec hinj hext hord htree hw hp (List.ne_nil_of_mem he')⟩
        rw [hv]
        exact length_received_pos hinj hext hord hw he'
      · exact absurd herr hne
  | recv =>
      obtain ⟨-, ⟨e', he', hv⟩ | ⟨-, hne⟩⟩ := hans
      · rw [hv]
        exact decide_eq_true (length_received_pos hinj hext hord hw he')
      · exact absurd herr hne
  | task i =>
      obtain ⟨-, hv | ⟨-, hne⟩⟩ := hans
      · rw [hv]
        rfl
      · exact absurd herr hne
  | greet sid =>
      obtain ⟨-, hv | ⟨-, hne⟩⟩ := hans
      · rw [hv]
        rfl
      · exact absurd herr hne
  | connect | shutdown => rfl

/-! ## When a program is through -/

/-- No more clients are handed out than are asked for. -/
theorem length_handedOut_le (hw : Playing (fun n => run (prog n)) ext ls w) (n : N) :
    (handedOut (w n).rets).length ≤ (prog n).count .accept := by
  rw [handedOut, List.length_filterMap_eq_countP]
  apply Count.countP_le_countP
  intro i e hi hp
  obtain ⟨st, hst, hans⟩ := returned_statement hw hi
  refine ⟨st, hst, ?_⟩
  have hapi : e.2.1 = .getOneConnection := by
    by_contra hne
    simp [hne] at hp
  cases st with
  | accept => rfl
  | recvTask | recv | task | greet =>
      rw [hans.1] at hapi
      cases hapi
  | connect | shutdown =>
      rw [show e.2.1 = _ from hans] at hapi
      cases hapi

/-- A program that is through has received what it waits for. -/
theorem le_length_received (hord : ∀ n, Orderly ext (parent n) (prog n))
    (hw : Playing (fun n => run (prog n)) ext ls w) {n : N}
    (hdone : (w n).rets.length = (prog n).length) :
    (prog n).countP Statement.receives ≤ (w n).received.length := by
  have hitems : (prog n).countP Statement.receives ≤ (w n).rets.countP isItem := by
    apply Count.countP_le_countP
    intro i st hst hreceives
    have hlt := (List.getElem?_eq_some_iff.mp hst).1
    obtain ⟨body, hbody⟩ := (hord n).ends
    have hlen : (prog n).length = body.length + 1 := by
      rw [hbody, List.length_append, List.length_singleton]
    -- the last call is `shutdown`, before which all the tests had been passed
    have hbefore : i < body.length := by
      by_contra hge
      have hlast : i = body.length := by omega
      rw [hlast, hbody, List.getElem?_concat_length] at hst
      cases hst
      cases hreceives
    obtain ⟨e, he⟩ : ∃ e, (w n).rets[i]? = some e := ⟨_, List.getElem?_eq_getElem (by omega)⟩
    obtain ⟨l, r, -, hcall, -⟩ := (hw.conduct n).returned body.length _
      (List.getElem?_eq_getElem (by omega))
    have htest := (run_eq_some hcall).1 i e st (by rw [List.getElem?_take_of_lt hbefore, he]) hst
    obtain ⟨st', hst', hans⟩ := returned_statement hw he
    obtain rfl := Option.some.inj (hst.symm.trans hst')
    refine ⟨e, he, ?_⟩
    have hpos : 0 < e.2.2 ∧ e.2.1 = .recv := by
      cases st with
      | recvTask => exact ⟨(of_decide_eq_true htest).1, hans.1⟩
      | recv => exact ⟨of_decide_eq_true htest, hans.1⟩
      | _ => cases hreceives
    rw [isItem, hpos.2]
    exact decide_eq_true (by omega)
  have hreceives := (hw.conduct n).receives
  omega

/-- **A program that is through has heard from its server and all its clients.** -/
theorem heard_of_done (hinj : Function.Injective ext) (hext : ∀ n, ExtId (ext n))
    (hord : ∀ n, Orderly ext (parent n) (prog n))
    (htree : ∀ a b, parent a = some b → parent b ≠ some a)
    (hw : Playing (fun n => run (prog n)) ext ls w) {n : N}
    (hdone : (w n).rets.length = (prog n).length) :
    ((w n).received.map fun e => e.2.2.1.toInt).Perm
        ((parent n).toList.map (fun p => (ext p).toInt) ++ handedOut (w n).rets) ∧
      (handedOut (w n).rets).length = (prog n).count .accept := by
  have hle := length_handedOut_le hw n
  have hge := le_length_received hord hw hdone
  rw [(hord n).receives] at hge
  have hnodup : ((w n).received.map fun e => e.2.2.1.toInt).Nodup := by
    have hall := (senders_nodup hinj hext hord htree hw n).map (f := Int32.toInt)
      fun _ _ => Int32.toInt_inj.mp
    rw [List.map_map] at hall
    exact hall
  have hsub : ((w n).received.map fun e => e.2.2.1.toInt) ⊆
      (parent n).toList.map (fun p => (ext p).toInt) ++ handedOut (w n).rets := by
    intro x hx
    obtain ⟨e, he, rfl⟩ := List.mem_map.mp hx
    rcases received_spec hinj hext hord htree hw he with ⟨p, hp, hx, -, -⟩ | ⟨m, -, hx, -, hout, -⟩
    · refine List.mem_append_left _ (List.mem_map.mpr ⟨p, ?_, by rw [hx]⟩)
      rw [hp]
      exact List.mem_singleton_self p
    · rw [hx]
      exact List.mem_append_right _ hout
  have hperm : ((w n).received.map fun e => e.2.2.1.toInt).Perm
      ((parent n).toList.map (fun p => (ext p).toInt) ++ handedOut (w n).rets) := by
    apply (hnodup.subperm hsub).perm_of_length_le
    rw [List.length_append, List.length_map, List.length_map]
    omega
  have hlen := hperm.length_eq
  rw [List.length_append, List.length_map, List.length_map] at hlen
  exact ⟨hperm, by omega⟩

end

/-! ## The test programs -/

/-- What a node runs, with the address and the node of its server. -/
inductive Role (N : Type)
  | server (numClients : Nat)
  | serverClient (numClients : Nat) (sip sport : Bytes) (srv : N)
  | client (sip sport : Bytes) (srv : N)

namespace Role

def parent : Role N → Option N
  | server _ => none
  | serverClient _ _ _ srv | client _ _ srv => some srv

/-- `accept_conns` of its `config_param_t`. -/
def accepts : Role N → Bool
  | server _ | serverClient _ _ _ _ => true
  | client _ _ _ => false

def numClients : Role N → Nat
  | server n | serverClient n _ _ _ => n
  | client _ _ _ => 0

def program (ext : N → Cliid) : Role N → List Statement
  | server n => CommTest.Zmq.server n
  | serverClient n sip sport srv => CommTest.Zmq.serverClient n sip sport (ext srv)
  | client sip sport srv => CommTest.Zmq.client sip sport (ext srv)

/-- A `server_client` has a last client, which it accepts after its own task; for `num_clients` 0 it
writes before its array. -/
def Fits : Role N → Prop
  | serverClient n _ _ _ => 0 < n
  | _ => True

end Role

theorem mem_exchange {n : Nat} {st : Statement} (h : st ∈ exchange n) :
    (∃ i, i < n ∧ st = .task i) ∨ st = .recv := by
  rcases List.mem_append.mp h with h | h
  · obtain ⟨i, hi, rfl⟩ := List.mem_map.mp h
    exact .inl ⟨i, List.mem_range.mp hi, rfl⟩
  · exact .inr (List.eq_of_mem_replicate h)

theorem count_exchange_le (n : Nat) (st : Statement) (hst : st.sends = true) :
    (exchange n).count st ≤ if st.sid = none then 1 else 0 := by
  have hrecv : (List.replicate n Statement.recv).count st = 0 := by
    apply List.count_eq_zero.mpr
    intro h
    obtain rfl := List.eq_of_mem_replicate h
    cases hst
  rw [exchange, List.count_append, hrecv, Nat.add_zero]
  cases st with
  | task i =>
      have hnodup : ((List.range n).map Statement.task).Nodup := by
        apply List.nodup_range.map
        intro i j hij
        cases hij
        rfl
      exact List.nodup_iff_count_le_one.mp hnodup _
  | greet sid =>
      apply Nat.le_of_eq
      apply List.count_eq_zero.mpr
      intro h
      obtain ⟨i, -, hi⟩ := List.mem_map.mp h
      cases hi
  | _ => cases hst

theorem count_accept_exchange (n : Nat) : (exchange n).count .accept = 0 := by
  apply List.count_eq_zero.mpr
  intro h
  rcases mem_exchange h with ⟨i, -, hi⟩ | hi <;> cases hi

theorem countP_receives_exchange (n : Nat) : (exchange n).countP Statement.receives = n := by
  have htasks : ((List.range n).map Statement.task).countP Statement.receives = 0 := by
    apply List.countP_eq_zero.mpr
    intro st hst hr
    obtain ⟨i, -, rfl⟩ := List.mem_map.mp hst
    cases hr
  rw [exchange, List.countP_append, htasks, List.countP_replicate, if_pos (by decide), Nat.zero_add]

theorem countP_isConnect_exchange (n : Nat) : (exchange n).countP Statement.isConnect = 0 := by
  apply List.countP_eq_zero.mpr
  intro st hst hc
  rcases mem_exchange hst with ⟨i, -, rfl⟩ | rfl <;> cases hc

section

variable {ext : N → Cliid}

theorem orderly_server (n : Nat) : Orderly ext none (server n) where
  sid st hst x hx := by
    rcases List.mem_append.mp hst with h | h
    · obtain rfl := List.eq_of_mem_replicate h
      cases hx
    · rcases List.mem_append.mp h with h | h
      · rcases mem_exchange h with ⟨i, -, rfl⟩ | rfl <;> cases hx
      · obtain rfl := List.mem_singleton.mp h
        cases hx
  connects := by
    rw [server, List.countP_append, List.countP_append, countP_isConnect_exchange,
      List.countP_replicate]
    simp [Statement.isConnect]
  once st hst := by
    have hle := count_exchange_le n st hst
    have hends : List.count st (List.replicate n .accept) = 0 ∧ List.count st [.shutdown] = 0 := by
      cases st with
      | task | greet => simp [List.count_replicate]
      | _ => cases hst
    rw [server, List.count_append, List.count_append, hends.1, hends.2]
    split_ifs at hle <;> omega
  ready := by
    refine ⟨List.replicate n .accept, List.prefix_append _ _, ?_, ?_, fun p hp => by cases hp⟩
    · intro st hst
      rw [List.eq_of_mem_replicate hst]
      rfl
    · intro i hi
      rw [List.count_replicate_self]
      rcases List.mem_append.mp hi with h | h
      · cases List.eq_of_mem_replicate h
      · rcases List.mem_append.mp h with h | h
        · rcases mem_exchange h with ⟨j, hj, heq⟩ | heq <;> cases heq
          exact hj
        · cases List.mem_singleton.mp h
  receives := by
    rw [server, List.countP_append, List.countP_append, countP_receives_exchange,
      List.countP_replicate, if_neg (by decide), List.count_append, List.count_append,
      count_accept_exchange, List.count_replicate_self]
    exact Nat.zero_add n
  ends := ⟨_, (List.append_assoc _ _ _).symm⟩

/-- A program with a server: what comes before the first send, the two loops, and the greeting. -/
theorem orderly_of_parts {pre : List Statement} {n : Nat} {srv : N}
    (hpre : ∀ st ∈ pre, st.sends = false ∧ ∀ x, st.sid = some x → x = ext srv)
    (haccepts : pre.count .accept = n) (hconnects : pre.countP Statement.isConnect = 1)
    (htask : .recvTask (ext srv) ∈ pre) (hreceives : pre.countP Statement.receives = 1) :
    Orderly ext (some srv) (pre ++ (exchange n ++ [.greet (ext srv), .shutdown])) where
  sid st hst x hx := by
    refine ⟨srv, rfl, ?_⟩
    rcases List.mem_append.mp hst with h | h
    · exact (hpre st h).2 x hx
    · rcases List.mem_append.mp h with h | h
      · rcases mem_exchange h with ⟨i, -, rfl⟩ | rfl <;> cases hx
      · rcases List.mem_cons.mp h with rfl | h
        · cases hx
          rfl
        · obtain rfl := List.mem_singleton.mp h
          cases hx
  connects := by
    rw [List.countP_append, List.countP_append, countP_isConnect_exchange, hconnects]
    simp [Statement.isConnect]
  once st hst := by
    have hle := count_exchange_le n st hst
    have hbefore : pre.count st = 0 := by
      apply List.count_eq_zero.mpr
      intro h
      rw [(hpre st h).1] at hst
      cases hst
    have hends : List.count st [.greet (ext srv), .shutdown] ≤ if st.sid = none then 0 else 1 := by
      cases st with
      | task => simp [Statement.sid]
      | greet x =>
          rw [List.count_cons]
          simp only [Statement.sid, List.count_cons, List.count_nil]
          split_ifs <;> simp_all
      | _ => cases hst
    rw [List.count_append, List.count_append, hbefore]
    split_ifs at hle hends <;> omega
  ready := by
    refine ⟨pre, List.prefix_append _ _, fun st hst => (hpre st hst).1, ?_, ?_⟩
    · intro i hi
      rw [haccepts]
      rcases List.mem_append.mp hi with h | h
      · cases (hpre _ h).1
      · rcases List.mem_append.mp h with h | h
        · rcases mem_exchange h with ⟨j, hj, heq⟩ | heq <;> cases heq
          exact hj
        · simp at h
    · intro p hp
      cases hp
      exact htask
  receives := by
    rw [List.countP_append, List.countP_append, countP_receives_exchange, hreceives,
      List.count_append, List.count_append, count_accept_exchange, haccepts]
    exact Nat.add_comm 1 n
  ends := ⟨pre ++ (exchange n ++ [.greet (ext srv)]), by simp⟩

theorem orderly_client (sip sport : Bytes) (srv : N) :
    Orderly ext (some srv) (client sip sport (ext srv)) := by
  have hparts : Orderly ext (some srv)
      ([.connect sip sport (ext srv), .recvTask (ext srv)] ++
        (exchange 0 ++ [.greet (ext srv), .shutdown])) := by
    apply orderly_of_parts _ rfl rfl (by simp) rfl
    simp [Statement.sends, Statement.sid]
  exact hparts

theorem orderly_serverClient {n : Nat} (hn : 0 < n) (sip sport : Bytes) (srv : N) :
    Orderly ext (some srv) (serverClient n sip sport (ext srv)) := by
  apply orderly_of_parts
  · intro st hst
    rcases List.mem_append.mp hst with h | h
    · rw [List.eq_of_mem_replicate h]
      simp [Statement.sends, Statement.sid]
    · simp only [List.mem_cons, List.not_mem_nil, or_false] at h
      rcases h with rfl | rfl | rfl <;> simp [Statement.sends, Statement.sid]
  · rw [List.count_append, List.count_replicate_self]
    simp only [List.count_cons, List.count_nil]
    have hlast : n - 1 + 1 = n := Nat.sub_add_cancel hn
    simpa using hlast
  · rw [List.countP_append, List.countP_replicate, if_neg (by decide)]
    rfl
  · simp
  · rw [List.countP_append, List.countP_replicate, if_neg (by decide)]
    rfl

theorem orderly_program {role : Role N} (hfits : role.Fits) :
    Orderly ext role.parent (role.program ext) := by
  cases role with
  | server n => exact orderly_server n
  | serverClient n sip sport srv => exact orderly_serverClient hfits sip sport srv
  | client sip sport srv => exact orderly_client sip sport srv

theorem count_accept_program {role : Role N} (hfits : role.Fits) :
    (role.program ext).count .accept = role.numClients := by
  cases role with
  | server n =>
      show (server n).count .accept = n
      rw [server, List.count_append, List.count_append, count_accept_exchange,
        List.count_replicate_self]
      simp
  | serverClient n sip sport srv =>
      have hlast : n - 1 + 1 = n := Nat.sub_add_cancel hfits
      show (serverClient n sip sport (ext srv)).count .accept = n
      rw [serverClient, List.count_append, List.count_append, List.count_append,
        count_accept_exchange, List.count_replicate_self]
      simpa using hlast
  | client sip sport srv => simp [Role.program, client, Role.numClients]

theorem accepts_of_mem {role : Role N} (h : .accept ∈ role.program ext) : role.accepts = true := by
  cases role with
  | server | serverClient => rfl
  | client => simp [Role.program, client] at h

end

/-! ## The property -/

/-- **What the test programs show.** -/
structure ChainTest (role : N → Role N) (ext : N → Cliid) (w : N → CommHandler N) : Prop where
  /-- No program stops at a failed test. -/
  passes : ∀ n, (w n).errcode = 0 → (w n).rets.length < ((role n).program ext).length →
    (run ((role n).program ext) (w n).rets (w n).received).isSome = true
  /-- A node receives its own id from its server, and greetings of clients that it was handed out. -/
  received : ∀ n, ∀ e ∈ (w n).received,
    (∃ p, (role n).parent = some p ∧ e.2.2.1 = ext p ∧ e.2.2.2 = idBytes (ext n)) ∨
    ∃ m, (role m).parent = some n ∧ e.2.2.1 = ext m ∧ e.2.2.2 = hello ∧
      (ext m).toInt ∈ handedOut (w n).rets
  /-- What is received first is the task. -/
  first : ∀ n p, (role n).parent = some p → (w n).received ≠ [] →
    firstId (w n).received = some (ext p)
  /-- Nobody is heard from twice. -/
  once : ∀ n, ((w n).received.map fun e => e.2.2.1).Nodup
  /-- A program that is through has heard from its server and from all the clients it expected. -/
  complete : ∀ n, (w n).rets.length = ((role n).program ext).length →
    ((w n).received.map fun e => e.2.2.1.toInt).Perm
        ((role n).parent.toList.map (fun p => (ext p).toInt) ++ handedOut (w n).rets) ∧
      (handedOut (w n).rets).length = (role n).numClients

/-- Nobody writes `accept_conns` after the constructor. -/
theorem acceptConns_exec {ext : N → Cliid} {hwm : Nat} {acceptConns : N → Bool}
    {ls : List (NetLabel N N)} {w : N → CommHandler N}
    (hrun : exec (netStep ext id hwm) (netInit N ext acceptConns) ls = some w) :
    ∀ n, (w n).acceptConns = acceptConns n := by
  have hstep : ∀ (v : N → CommHandler N) (l : NetLabel N N) (v' : N → CommHandler N),
      (∀ n, (v n).acceptConns = acceptConns n) → netStep ext id hwm v l = some v' →
      ∀ n, (v' n).acceptConns = acceptConns n := by
    intro v l v' hv h
    cases netTrans_of_netStep h with
    | comm hs =>
        apply forall_update (P := fun n s => s.acceptConns = acceptConns n) hv
        rw [(CommHandler.later_of_comm hs).acceptConns, hv]
    | app hs =>
        apply forall_update (P := fun n s => s.acceptConns = acceptConns n) hv
        rw [(CommHandler.later_of_app hs).acceptConns, hv]
    | ctor | monitor | multicast =>
        apply forall_update (P := fun n s => s.acceptConns = acceptConns n) hv
        exact hv _
    | linkUp | transfer =>
        apply forall_update (P := fun n s => s.acceptConns = acceptConns n)
        · exact forall_update (P := fun n s => s.acceptConns = acceptConns n) hv _ (hv _)
        · exact hv _
  exact exec_invariant hstep (fun _ => rfl) hrun

/-- **The basic test and the chain test pass.** Any nodes with distinct ids in `[0, 2^27)`, each with
one of the programs, no two of them each other's server, any interleaving: in every state of every run
in which no message is lost in a failing send. -/
theorem chainTest (role : N → Role N) (hfits : ∀ n, (role n).Fits) (ext : N → Cliid)
    (hinj : Function.Injective ext) (hext : ∀ n, ExtId (ext n))
    (htree : ∀ a b, (role a).parent = some b → (role b).parent ≠ some a) (hwm : Nat)
    (ls : List (NetLabel N N)) (hok : ∀ l ∈ ls, Lossless l) (w : N → CommHandler N)
    (hplays : Meets (netStep ext id hwm) (Plays fun n => run ((role n).program ext))
      (netInit N ext fun n => (role n).accepts) ls)
    (hrun : exec (netStep ext id hwm) (netInit N ext fun n => (role n).accepts) ls = some w) :
    ChainTest role ext w := by
  have hord : ∀ n, Orderly ext (role n).parent ((role n).program ext) :=
    fun n => orderly_program (hfits n)
  have hcount : ∀ n, ((role n).program ext).count .accept = (role n).numClients :=
    fun n => count_accept_program (hfits n)
  have hw : Playing (fun n => run ((role n).program ext)) ext ls w :=
    playing_exec hinj hext (civil_run (nodeKey_injective hinj hext) hord htree) hok hplays hrun
  refine ⟨?_, ?_, ?_, senders_nodup hinj hext hord htree hw, ?_⟩
  · intro n herr hlt
    have hacc : .accept ∈ (role n).program ext → (w n).acceptConns = true := by
      intro hmem
      rw [acceptConns_exec hrun]
      exact accepts_of_mem hmem
    rw [run, if_pos, List.getElem?_eq_getElem hlt]
    · rfl
    · apply List.all_eq_true.mpr
      rintro ⟨e, st⟩ hmem
      obtain ⟨i, hi⟩ := List.mem_iff_getElem?.mp hmem
      obtain ⟨he, hst⟩ := List.getElem?_zip_eq_some.mp hi
      exact test_of_returned hinj hext hord htree hw hacc herr he hst
  · intro n e he
    rcases received_spec hinj hext hord htree hw he with
      ⟨p, hp, hx, hdata, -⟩ | ⟨m, hm, hx, hdata, hout, -⟩
    · exact .inl ⟨p, hp, hx, hdata⟩
    · exact .inr ⟨m, hm, hx, hdata, hout⟩
  · intro n p hp hne
    exact firstId_spec hinj hext hord htree hw hp hne
  · intro n hdone
    rw [← hcount n]
    exact heard_of_done hinj hext hord htree hw hdone

/-- A server, a `server_client` of it and a client of that one. -/
inductive Chain
  | root | middle | leaf
  deriving DecidableEq

def Chain.id : Chain → Cliid
  | root => 1
  | middle => 2
  | leaf => 3

def Chain.role : Chain → Role Chain
  | root => .server 1
  | middle => .serverClient 1 [104] [49] root
  | leaf => .client [104] [50] middle

/-- From the construction of the nodes to the last `shutdown`. -/
def threeNodes : List (NetLabel Chain Chain) :=
  [.comm .root (.startup true), .comm .root (.startup true), .comm .root (.startup true),
    .comm .root (.startup true), .ctor .root .relock, .ctor .root .unlock,
    .comm .middle (.startup true), .comm .middle (.startup true), .comm .middle (.startup true),
    .comm .middle (.startup true), .ctor .middle .relock, .ctor .middle .unlock,
    .comm .leaf (.startup true), .comm .leaf (.startup true), .comm .leaf (.startup true),
    .ctor .leaf .relock, .ctor .leaf .unlock, .app .root .getOneConnection,
    -- the middle node gets its task
    .app .middle (.connectTo [104] [49] 1), .app .middle .lock, .app .middle (.sendReq true),
    .comm .middle (.poll true), .comm .middle (.conn .middle [0] true), .linkUp .middle .root,
    .comm .middle (.hello true), .app .middle .relock, .app .middle .unlock, .app .middle .test,
    .transfer .middle .root, .comm .root (.poll true), .comm .root (.router (ide2i 2)),
    .app .root .pop, .app .root (.send 2 [2, 0, 0, 0]), .app .root .test, .app .root .recv,
    .comm .root (.poll true), .comm .root (.msgq .root true), .transfer .root .middle,
    .app .middle .recv, .comm .middle (.poll true), .comm .middle (.router (ide2i 1)),
    .comm .middle (.push (some .middle)), .app .middle .recvDone, .app .middle .test,
    .app .middle .getOneConnection,
    -- the leaf gets its task
    .app .leaf (.connectTo [104] [50] 2), .app .leaf .lock, .app .leaf (.sendReq true),
    .comm .leaf (.poll true), .comm .leaf (.conn .leaf [0] true), .linkUp .leaf .middle,
    .comm .leaf (.hello true), .app .leaf .relock, .app .leaf .unlock, .app .leaf .test,
    .transfer .leaf .middle, .comm .middle (.poll true), .comm .middle (.router (ide2i 3)),
    .app .middle .pop, .app .middle (.send 3 [3, 0, 0, 0]), .app .middle .test, .app .middle .recv,
    .comm .middle (.poll true), .comm .middle (.msgq .middle true), .transfer .middle .leaf,
    .app .leaf .recv, .comm .leaf (.poll true), .comm .leaf (.router (ide2i 2)),
    .comm .leaf (.push (some .leaf)), .app .leaf .recvDone, .app .leaf .test,
    -- the greetings go up
    .app .leaf (.send 2 hello), .app .leaf .test, .comm .leaf (.poll true),
    .comm .leaf (.msgq .leaf true), .transfer .leaf .middle, .app .leaf .shutdown,
    .comm .leaf (.poll true), .comm .leaf .shutdown, .app .leaf .join,
    .comm .middle (.poll true), .comm .middle (.router (ide2i 3)),
    .comm .middle (.push (some .middle)), .app .middle .recvDone, .app .middle .test,
    .app .middle (.send 1 hello), .app .middle .test, .comm .middle (.poll true),
    .comm .middle (.msgq .middle true), .transfer .middle .root, .app .middle .shutdown,
    .comm .middle (.poll true), .comm .middle .shutdown, .app .middle .join,
    .comm .root (.poll true), .comm .root (.router (ide2i 2)), .comm .root (.push (some .root)),
    .app .root .recvDone, .app .root .test, .app .root .shutdown, .comm .root (.poll true),
    .comm .root .shutdown, .app .root .join]

/-- The run of the three nodes. -/
theorem chainTest_threeNodes :
    ∃ w : Chain → CommHandler Chain,
      exec (netStep Chain.id id 10) (netInit Chain Chain.id fun n => n.role.accepts) threeNodes =
        some w ∧
      ChainTest Chain.role Chain.id w ∧ (w .root).received = [(0, .root, 2, hello)] ∧
      (w .middle).received = [(0, .middle, 1, idBytes 2), (1, .middle, 3, hello)] ∧
      (w .root).rets.length = 4 ∧ (w .middle).rets.length = 7 ∧ (w .leaf).rets.length = 4 := by
  obtain ⟨w, hrun, hw⟩ := exists_exec (netStep Chain.id id 10)
    (netInit Chain Chain.id fun n => n.role.accepts) threeNodes
    (fun w => (w .root).received = [(0, .root, 2, hello)] ∧
      (w .middle).received = [(0, .middle, 1, idBytes 2), (1, .middle, 3, hello)] ∧
      (w .root).rets.length = 4 ∧ (w .middle).rets.length = 7 ∧ (w .leaf).rets.length = 4)
    (by decide +kernel)
  refine ⟨w, hrun, ?_, of_decide_eq_true hw⟩
  have hfits : ∀ n : Chain, n.role.Fits
    | .root | .leaf => trivial
    | .middle => Nat.one_pos
  have hinj : Function.Injective Chain.id := by
    intro a b hab
    cases a <;> cases b <;> first | rfl | exact absurd hab (by decide)
  have hext : ∀ n : Chain, ExtId n.id := by
    intro n
    cases n <;> decide
  have htree : ∀ a b : Chain, a.role.parent = some b → b.role.parent ≠ some a := by
    intro a b hab
    cases a <;> cases hab <;> decide
  have hok : ∀ l ∈ threeNodes, Lossless l := by decide +kernel
  exact chainTest Chain.role hfits Chain.id hinj hext htree 10 threeNodes hok w (by decide +kernel)
    hrun

end CommTest.Zmq
