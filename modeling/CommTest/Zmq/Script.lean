import CommTest.Lib.Count
import CommTest.Zmq.Accept
import CommTest.Zmq.Shutdown

/-!
# Programs over the library

The main thread of a program that uses a `comm_handler` is a function of what it has seen: its next
call depends on what its calls have returned and on what `recv` has given it. Here every node runs
one such thread, so threads are named by their nodes.

* `Script` is such a program, and `Plays` the runs in which the threads do what their scripts say;
  the steps inside a call are those of the library.
* `Conduct` is what then holds of a node: where the thread is, what its calls have returned
  (`Answers`), and that every message and every connection request was called for by the script, as
  often as it was.
* `conduct_appStep`, `conduct_commStep`: the steps of a node keep it. Nothing is published, as the
  scripts use `connect_to`, `send`, `recv`, `get_one_connection` and `shutdown` only.
* `Conduct.once` is the rule for what a script calls for at one place only.
-/

set_option linter.unusedSectionVars false

namespace CommTest.Zmq

open FairQueue Lts

open scoped List

variable {N : Type} [DecidableEq N]

/-! ## Scripts -/

/-- The next call of a thread, from what its calls have returned and what `recv` has given it;
`none` when the program has ended. -/
abbrev Script (N : Type) := List (N × Api × Int) → List (Nat × N × Cliid × Bytes) → Option AppLabel

/-- The calls a script may use. -/
def AppLabel.Plain : AppLabel → Prop
  | .connectTo _ _ _ | .send _ _ | .recv | .getOneConnection | .shutdown => True
  | _ => False

/-- The thread of a node calls what its script says. -/
def Plays (script : N → Script N) (w : N → CommHandler N) : NetLabel N N → Prop
  | .app n l => (w n).app n = .idle → script n (w n).rets (w n).received = some l
  | _ => True

/-- The script has called for `l` at some time. -/
def CommHandler.Called (script : Script N) (s : CommHandler N) (l : AppLabel) : Prop :=
  ∃ h r, h <+: s.rets ∧ r <+: s.received ∧ script h r = some l

/-- Where a thread is in a call. -/
def CommHandler.Within (s : CommHandler N) : AppLabel → AppPc → Prop
  | .connectTo ip port dest, pc =>
      pc = .calling (.connect (ide2i dest) (connstr ip port)) ∨
      pc = .locked (.connect (ide2i dest) (connstr ip port)) ∨
      pc = .waiting (.connect (ide2i dest) (connstr ip port)) ∨
      pc = .relocked (.connect (ide2i dest) (connstr ip port)) ∨
      pc = .testing (.connectTo (ide2i dest)) 0
  | .send cid data, pc => pc = .testing (.send cid data) data.length
  | .recv, pc => pc = .receiving ∨ ∃ e ∈ s.received, pc = .testing .recv e.2.2.2.length
  | .getOneConnection, pc => pc = .popping
  | .shutdown, pc => pc = .joining
  | _, _ => False

/-- What a call has returned: of which function, and the value, which is -1 only when `errcode` has
been set or no connections are accepted. -/
def CommHandler.Answers (s : CommHandler N) : AppLabel → Api → Int → Prop
  | .connectTo _ _ dest, api, _ => api = .connectTo (ide2i dest)
  | .send cid data, api, v => api = .send cid data ∧ (v = data.length ∨ v = -1 ∧ s.errcode ≠ 0)
  | .recv, api, v =>
      api = .recv ∧ ((∃ e ∈ s.received, v = e.2.2.2.length) ∨ v = -1 ∧ s.errcode ≠ 0)
  | .getOneConnection, api, v => api = .getOneConnection ∧
      ((∃ c ∈ s.clientLog, v = c.toInt) ∨ v = -1 ∧ (s.errcode ≠ 0 ∨ s.acceptConns = false))
  | .shutdown, api, _ => api = .shutdown
  | _, _, _ => False

/-- A thread in `connect_to`, and one that has not handed its request over. -/
@[simp] def AppPc.connecting : AppPc → Nat
  | .calling (.connect _ _) | .locked (.connect _ _) | .waiting (.connect _ _)
  | .relocked (.connect _ _) | .testing (.connectTo _) _ => 1
  | _ => 0

@[simp] def AppPc.requesting : AppPc → Nat
  | .calling (.connect _ _) | .locked (.connect _ _) => 1
  | _ => 0

/-- A thread in a `send` for the identity `d`, and one in `recv` that has its item. -/
@[simp] def AppPc.sending (d : Cliid) : AppPc → Nat
  | .testing (.send cid _) _ => if ide2i cid = d then 1 else 0
  | _ => 0

@[simp] def AppPc.taking : AppPc → Nat
  | .testing .recv _ => 1
  | _ => 0

/-- The calls of `connect_to` and those of `send` for `d` that have returned, and the calls of `recv`
that have returned an item. -/
@[simp] def isConnect (e : N × Api × Int) : Bool :=
  match e.2.1 with | .connectTo _ => true | _ => false

@[simp] def isSend (d : Cliid) (e : N × Api × Int) : Bool :=
  match e.2.1 with | .send cid _ => ide2i cid = d | _ => false

@[simp] def isItem (e : N × Api × Int) : Bool :=
  match e.2.1 with | .recv => e.2.2 ≠ -1 | _ => false

namespace CommHandler

/-- Nothing has been published, and nothing published has arrived. -/
def Quiet (s : CommHandler N) : Prop := s.pubSendpull = [] ∧ s.pubOut = [] ∧ s.subSock = []

/-- **What holds of a node whose thread plays its script.** -/
structure Conduct (script : Script N) (n : N) (s : CommHandler N) : Prop where
  within : s.app n = .idle ∨
    ∃ l r, r <+: s.received ∧ script s.rets r = some l ∧ s.Within l (s.app n)
  returned : ∀ i e, s.rets[i]? = some e →
    ∃ l r, r <+: s.received ∧ script (s.rets.take i) r = some l ∧ s.Answers l e.2.1 e.2.2
  sent : ∀ e ∈ s.sendLog, ∃ cid data, s.Called script (.send cid data) ∧
    e = (n, ide2i cid, Msg.mk data (.send n))
  connected : ∀ d ∈ s.connSock.map (fun e => e.2.1) ++ s.asked,
    ∃ ip port dest, s.Called script (.connectTo ip port dest) ∧ d = ide2i dest
  connects : s.connSock.length + s.routerConns.length + (s.app n).requesting ≤
    s.rets.countP isConnect + (s.app n).connecting
  sends : ∀ d, s.sendLog.countP (fun e => e.2.1 = d) ≤
    s.rets.countP (isSend d) + (s.app n).sending d
  receives : s.rets.countP isItem + (s.app n).taking ≤ s.received.length
  quiet : s.Quiet

/-! ## What a later state keeps -/

/-- What the records of a node keep from one state to the next. -/
structure Later (s s' : CommHandler N) : Prop where
  rets : s.rets <+: s'.rets
  received : s.received <+: s'.received
  clientLog : s.clientLog <+: s'.clientLog
  errcode : s.errcode ≠ 0 → s'.errcode ≠ 0
  acceptConns : s'.acceptConns = s.acceptConns

/-- What a step of a thread leaves alone that sends, asks for and receives nothing. -/
structure Keeps (s s' : CommHandler N) : Prop where
  sendLog : s'.sendLog = s.sendLog
  connSock : s'.connSock = s.connSock
  routerConns : s'.routerConns = s.routerConns
  received : s'.received = s.received
  pubSendpull : s'.pubSendpull = s.pubSendpull
  pubOut : s'.pubOut = s.pubOut
  subSock : s'.subSock = s.subSock

variable {script : Script N} {n : N} {s s' : CommHandler N}

theorem Called.later {l : AppLabel} (h : s.Called script l) (hl : Later s s') :
    s'.Called script l := by
  obtain ⟨hist, r, hh, hr, hs⟩ := h
  exact ⟨hist, r, hh.trans hl.rets, hr.trans hl.received, hs⟩

theorem Answers.later {l : AppLabel} {api : Api} {v : Int} (h : s.Answers l api v)
    (hl : Later s s') : s'.Answers l api v := by
  cases l with
  | send cid data => exact ⟨h.1, h.2.imp_right fun ⟨hv, herr⟩ => ⟨hv, hl.errcode herr⟩⟩
  | recv =>
      rcases h with ⟨hapi, ⟨e, he, hv⟩ | ⟨hv, herr⟩⟩
      · exact ⟨hapi, .inl ⟨e, hl.received.subset he, hv⟩⟩
      · exact ⟨hapi, .inr ⟨hv, hl.errcode herr⟩⟩
  | getOneConnection =>
      rcases h with ⟨hapi, ⟨c, hc, hv⟩ | ⟨hv, herr⟩⟩
      · exact ⟨hapi, .inl ⟨c, hl.clientLog.subset hc, hv⟩⟩
      · refine ⟨hapi, .inr ⟨hv, herr.imp hl.errcode fun hacc => ?_⟩⟩
        rw [hl.acceptConns, hacc]
  | _ => exact h

theorem Within.later {l : AppLabel} {pc : AppPc} (h : s.Within l pc)
    (hr : s.received <+: s'.received) : s'.Within l pc := by
  cases l with
  | recv =>
      rcases h with h | ⟨e, he, h⟩
      · exact .inl h
      · exact .inr ⟨e, hr.subset he, h⟩
  | _ => exact h

/-- The calls that had returned are answered as before. -/
theorem Conduct.returned_later (hs : s.Conduct script n) (hl : Later s s') {i : Nat}
    {e : N × Api × Int} (hi : s.rets[i]? = some e) :
    ∃ l r, r <+: s'.received ∧ script (s'.rets.take i) r = some l ∧ s'.Answers l e.2.1 e.2.2 := by
  obtain ⟨l, r, hr, hscript, hans⟩ := hs.returned i e hi
  have hle : i ≤ s.rets.length := Nat.le_of_lt (List.getElem?_eq_some_iff.mp hi).1
  refine ⟨l, r, hr.trans hl.received, ?_, hans.later hl⟩
  obtain ⟨rest, hrest⟩ := hl.rets
  rw [← hrest, List.take_append_of_le_length hle]
  exact hscript

/-- What was sent had been called for. -/
theorem Conduct.sent_later (hs : s.Conduct script n) (hl : Later s s') {e : N × Cliid × Msg N}
    (he : e ∈ s.sendLog) : ∃ cid data, s'.Called script (.send cid data) ∧
      e = (n, ide2i cid, Msg.mk data (.send n)) := by
  obtain ⟨cid, data, hcalled, heq⟩ := hs.sent e he
  exact ⟨cid, data, hcalled.later hl, heq⟩

/-- Who was asked for had been called for. -/
theorem Conduct.connected_later (hs : s.Conduct script n) (hl : Later s s') {d : Cliid}
    (hd : d ∈ s.connSock.map (fun e => e.2.1) ++ s.asked) :
    ∃ ip port dest, s'.Called script (.connectTo ip port dest) ∧ d = ide2i dest := by
  obtain ⟨ip, port, dest, hcalled, heq⟩ := hs.connected d hd
  exact ⟨ip, port, dest, hcalled.later hl, heq⟩

theorem Keeps.asked (hk : Keeps s s') : s'.asked = s.asked := by
  rw [CommHandler.asked, CommHandler.asked, hk.routerConns]

theorem Keeps.quiet (hk : Keeps s s') (hs : s.Quiet) : s'.Quiet := by
  rw [Quiet, hk.pubSendpull, hk.pubOut, hk.subSock]
  exact hs

/-- Steps that do not move the thread. -/
theorem Conduct.unmoved (hs : s.Conduct script n) (hl : Later s s') (happ : s'.app = s.app)
    (hrets : s'.rets = s.rets) (hsend : s'.sendLog = s.sendLog)
    (hconn : s'.connSock.map (fun e => e.2.1) ++ s'.asked ⊆
      s.connSock.map (fun e => e.2.1) ++ s.asked)
    (hcount : s'.connSock.length + s'.routerConns.length ≤
      s.connSock.length + s.routerConns.length)
    (hquiet : s'.Quiet) : s'.Conduct script n where
  within := by
    rw [happ, hrets]
    refine hs.within.imp_right ?_
    rintro ⟨l, r, hr, hscript, hin⟩
    exact ⟨l, r, hr.trans hl.received, hscript, hin.later hl.received⟩
  returned i e hi := hs.returned_later hl (hrets ▸ hi)
  sent e he := hs.sent_later hl (hsend ▸ he)
  connected d hd := hs.connected_later hl (hconn hd)
  connects := by
    have hold := hs.connects
    rw [happ, hrets]
    omega
  sends d := by
    rw [happ, hrets, hsend]
    exact hs.sends d
  receives := by
    have hlen := hl.received.length_le
    rw [happ, hrets]
    exact hs.receives.trans hlen
  quiet := hquiet

/-- The thread goes on in a call. -/
theorem Conduct.goto {l : AppLabel} {r : List (Nat × N × Cliid × Bytes)} {pc : AppPc}
    (hs : s.Conduct script n) (hl : Later s s') (happ : s'.app = Function.update s.app n pc)
    (hrets : s'.rets = s.rets) (hr : r <+: s'.received) (hscript : script s.rets r = some l)
    (hin : s'.Within l pc)
    (hsent : ∀ e ∈ s'.sendLog, e ∈ s.sendLog ∨ ∃ cid data, s'.Called script (.send cid data) ∧
      e = (n, ide2i cid, Msg.mk data (.send n)))
    (hconn : ∀ d ∈ s'.connSock.map (fun e => e.2.1) ++ s'.asked,
      d ∈ s.connSock.map (fun e => e.2.1) ++ s.asked ∨
      ∃ ip port dest, s'.Called script (.connectTo ip port dest) ∧ d = ide2i dest)
    (hconnects : s'.connSock.length + s'.routerConns.length + pc.requesting + (s.app n).connecting ≤
      s.connSock.length + s.routerConns.length + (s.app n).requesting + pc.connecting)
    (hsends : ∀ d, s'.sendLog.countP (fun e => e.2.1 = d) + (s.app n).sending d ≤
      s.sendLog.countP (fun e => e.2.1 = d) + pc.sending d)
    (hreceives : s.received.length + pc.taking ≤ s'.received.length + (s.app n).taking)
    (hquiet : s'.Quiet) : s'.Conduct script n := by
  have hpc : s'.app n = pc := by
    rw [happ, Function.update_self]
  refine ⟨.inr ⟨l, r, hr, by rw [hrets, hscript], by rw [hpc]; exact hin⟩, ?_, ?_, ?_, ?_, ?_, ?_,
    hquiet⟩
  · intro i e hi
    exact hs.returned_later hl (hrets ▸ hi)
  · intro e he
    exact (hsent e he).elim (hs.sent_later hl) fun h => h
  · intro d hd
    exact (hconn d hd).elim (hs.connected_later hl) fun h => h
  · have hold := hs.connects
    rw [hpc, hrets]
    omega
  · intro d
    have hold := hs.sends d
    have hnew := hsends d
    rw [hpc, hrets]
    omega
  · have hold := hs.receives
    rw [hpc, hrets]
    omega

/-- The thread goes on in a call and does nothing else. -/
theorem Conduct.move {l : AppLabel} {r : List (Nat × N × Cliid × Bytes)} {pc : AppPc}
    (hs : s.Conduct script n) (hl : Later s s') (hk : Keeps s s')
    (happ : s'.app = Function.update s.app n pc) (hrets : s'.rets = s.rets) (hr : r <+: s'.received)
    (hscript : script s.rets r = some l) (hin : s'.Within l pc)
    (hconnects : pc.requesting + (s.app n).connecting ≤ (s.app n).requesting + pc.connecting)
    (hsends : ∀ d, (s.app n).sending d ≤ pc.sending d) (hreceives : pc.taking ≤ (s.app n).taking) :
    s'.Conduct script n := by
  apply hs.goto hl happ hrets hr hscript hin
  · intro e he
    exact .inl (hk.sendLog ▸ he)
  · intro d hd
    rw [hk.connSock, hk.asked] at hd
    exact .inl hd
  · rw [hk.connSock, hk.routerConns]
    omega
  · intro d
    rw [hk.sendLog]
    exact Nat.add_le_add_left (hsends d) _
  · rw [hk.received]
    omega
  · exact hk.quiet hs.quiet

/-- The thread returns from a call. -/
theorem Conduct.ret {l : AppLabel} {r : List (Nat × N × Cliid × Bytes)} {api : Api} {v : Int}
    (hs : s.Conduct script n) (hl : Later s s') (hk : Keeps s s')
    (happ : s'.app = Function.update s.app n .idle) (hrets : s'.rets = s.rets ++ [(n, api, v)])
    (hr : r <+: s'.received) (hscript : script s.rets r = some l) (hans : s'.Answers l api v)
    (hconnects : (s.app n).connecting ≤ (s.app n).requesting + [(n, api, v)].countP isConnect)
    (hsends : ∀ d, (s.app n).sending d ≤ [(n, api, v)].countP (isSend d))
    (hreceives : [(n, api, v)].countP isItem ≤ (s.app n).taking) : s'.Conduct script n := by
  have hpc : s'.app n = .idle := by
    rw [happ, Function.update_self]
  refine ⟨.inl hpc, ?_, ?_, ?_, ?_, ?_, ?_, hk.quiet hs.quiet⟩
  · intro i e hi
    rw [hrets] at hi
    by_cases hlt : i < s.rets.length
    · rw [List.getElem?_append_left hlt] at hi
      exact hs.returned_later hl hi
    · rw [List.getElem?_append_right (Nat.le_of_not_lt hlt), List.getElem?_singleton] at hi
      split_ifs at hi with hz
      obtain rfl := Option.some.inj hi
      have hi : i = s.rets.length := by omega
      refine ⟨l, r, hr, ?_, hans⟩
      rw [hrets, hi, List.take_left]
      exact hscript
  · intro e he
    exact hs.sent_later hl (hk.sendLog ▸ he)
  · intro d hd
    rw [hk.connSock, hk.asked] at hd
    exact hs.connected_later hl hd
  · have hold := hs.connects
    rw [hpc, hrets, hk.connSock, hk.routerConns, List.countP_append]
    simp only [AppPc.requesting, AppPc.connecting]
    omega
  · intro d
    have hold := hs.sends d
    have hnew := hsends d
    rw [hpc, hrets, hk.sendLog, List.countP_append]
    simp only [AppPc.sending]
    omega
  · have hold := hs.receives
    rw [hpc, hrets, hk.received, List.countP_append]
    simp only [AppPc.taking]
    omega

/-! ## Steps of one node -/

theorem later_of_app {t : N} {l : AppLabel} (h : s.appStep t l = some s') : Later s s' := by
  have hf := appFrame_of_appStep h
  have hfields : s.rets <+: s'.rets ∧ s.received <+: s'.received ∧ s'.acceptConns = s.acceptConns := by
    obtain ⟨pullers, hattach⟩ := attachTask_eq s t
    cases appTrans_of_appStep h with
    | sendReq hpc =>
        rename_i r
        cases r <;> exact ⟨List.prefix_rfl, List.prefix_rfl, rfl⟩
    | unlock hpc =>
        rename_i r
        cases r <;> exact ⟨List.prefix_rfl, List.prefix_rfl, rfl⟩
    | recv =>
        rw [hattach]
        exact ⟨List.prefix_rfl, List.prefix_rfl, rfl⟩
    | recvAsync =>
        rw [hattach]
        exact ⟨List.prefix_rfl, List.prefix_append _ _, rfl⟩
    | recvAsyncEmpty | recvAsyncNone =>
        rw [hattach]
        exact ⟨List.prefix_append _ _, List.prefix_rfl, rfl⟩
    | recvDone => exact ⟨List.prefix_rfl, List.prefix_append _ _, rfl⟩
    | reject | sendReqFail | announcedFail | announceEnd | pop | join | test =>
        exact ⟨List.prefix_append _ _, List.prefix_rfl, rfl⟩
    | _ => exact ⟨List.prefix_rfl, List.prefix_rfl, rfl⟩
  refine ⟨hfields.1, hfields.2.1, ?_, fun herr => hf.errcode ▸ herr, hfields.2.2⟩
  rw [hf.clientLog]

/-- What a thread that is waiting in a call of a script goes on with. -/
def GoesOn (s : CommHandler N) (t : N) (s' : CommHandler N) : Prop :=
  match s.app t with
  | .calling r => s' = { s with mtx := some (.app t) }.goto t (.locked r)
  | .locked r =>
      s' = (s.enqueue t r).goto t (.waiting r) ∨ s' = { s with mtx := none }.ret t r.api (-1)
  | .waiting r => s' = { s with mtx := some (.app t) }.goto t (.relocked r)
  | .relocked r => s' = { s with mtx := none }.finish t r
  | .receiving =>
      ∃ (e : Nat × N × Cliid × Bytes) (q : List (N × Nat × Cliid × Msg N)),
        s' = { s with taskPipes := q, received := s.received ++ [e] }.goto t
          (.testing .recv e.2.2.2.length)
  | .popping => ∃ (c : Cliid) (q : List Cliid), s.clientq = c :: q ∧
      s' = { s with clientq := q }.ret t .getOneConnection c.toInt
  | .joining => s' = s.ret t .shutdown 0
  | .testing api v => s' = s.ret t api (if s.errcode ≠ 0 then -1 else v)
  | _ => True

theorem goesOn_of_appStep {t : N} {l : AppLabel} (h : s.appStep t l = some s') : GoesOn s t s' := by
  cases appTrans_of_appStep h with
  | sendReq hpc =>
      rw [GoesOn, hpc]
      exact .inl rfl
  | sendReqFail hpc =>
      rw [GoesOn, hpc]
      exact .inr rfl
  | recvDone hpc hpop =>
      rw [GoesOn, hpc]
      exact ⟨(_, _, _, _), _, rfl⟩
  | pop hpc hq =>
      rw [GoesOn, hpc]
      exact ⟨_, _, hq, rfl⟩
  | lock hpc | relock hpc | unlock hpc | join hpc | test hpc => rw [GoesOn, hpc]
  | reject hpc | call hpc | announceStart hpc | announce hpc | announced hpc | announcedFail hpc
  | announceEnd hpc | drain hpc | drainEmpty hpc | drainEnd hpc | publish hpc | send hpc | recv hpc
  | recvAsync hpc | recvAsyncEmpty hpc | recvAsyncNone hpc | getOneConnection hpc | shutdown hpc =>
      rw [GoesOn, hpc]
      trivial

/-- **A step of the thread that begins a call keeps the conduct.** -/
theorem conduct_call (hs : s.Conduct script n) {l : AppLabel} (hplain : l.Plain)
    (hscript : script s.rets s.received = some l) (hpc : s.app n = .idle)
    (h : s.appStep n l = some s') : s'.Conduct script n := by
  have hl := later_of_app h
  have hcalled : s'.Called script l :=
    Called.later ⟨s.rets, s.received, List.prefix_rfl, List.prefix_rfl, hscript⟩ hl
  cases l with
  | connectTo ip port dest =>
      simp only [appStep, hpc] at h
      split_ifs at h with herr <;> cases h
      · exact hs.ret hl ⟨rfl, rfl, rfl, rfl, rfl, rfl, rfl⟩ rfl rfl List.prefix_rfl hscript rfl
          (by simp [hpc]) (by simp [hpc]) (by simp)
      · exact hs.move hl ⟨rfl, rfl, rfl, rfl, rfl, rfl, rfl⟩ rfl rfl List.prefix_rfl hscript
          (.inl rfl) (by simp [hpc]) (by simp [hpc]) (by simp)
  | send cid data =>
      simp only [appStep, hpc] at h
      split_ifs at h with herr <;> cases h
      · exact hs.ret hl ⟨rfl, rfl, rfl, rfl, rfl, rfl, rfl⟩ rfl rfl List.prefix_rfl hscript
          ⟨rfl, .inr ⟨rfl, herr⟩⟩ (by simp [hpc]) (by simp [hpc]) (by simp)
      · apply hs.goto hl rfl rfl List.prefix_rfl hscript rfl
        · intro e he
          rcases List.mem_append.mp he with he | he
          · exact .inl he
          · exact .inr ⟨cid, data, hcalled, List.mem_singleton.mp he⟩
        · exact fun d hd => .inl hd
        · simp [hpc, CommHandler.goto]
        · simp [hpc, CommHandler.goto]
        · simp [hpc, CommHandler.goto]
        · exact hs.quiet
  | recv =>
      obtain ⟨pullers, hattach⟩ := attachTask_eq s n
      simp only [appStep, hpc, hattach] at h
      split_ifs at h with herr <;> cases h
      · exact hs.ret hl ⟨rfl, rfl, rfl, rfl, rfl, rfl, rfl⟩ rfl rfl List.prefix_rfl hscript
          ⟨rfl, .inr ⟨rfl, herr⟩⟩ (by simp [hpc]) (by simp [hpc]) (by simp)
      · exact hs.move hl ⟨rfl, rfl, rfl, rfl, rfl, rfl, rfl⟩ rfl rfl List.prefix_rfl hscript
          (.inl rfl) (by simp [hpc]) (by simp [hpc]) (by simp)
  | getOneConnection =>
      simp only [appStep, hpc] at h
      split_ifs at h with herr <;> cases h
      · exact hs.ret hl ⟨rfl, rfl, rfl, rfl, rfl, rfl, rfl⟩ rfl rfl List.prefix_rfl hscript
          ⟨rfl, .inr ⟨rfl, herr.symm⟩⟩ (by simp [hpc]) (by simp [hpc]) (by simp)
      · exact hs.move hl ⟨rfl, rfl, rfl, rfl, rfl, rfl, rfl⟩ rfl rfl List.prefix_rfl hscript rfl
          (by simp [hpc]) (by simp [hpc]) (by simp)
  | shutdown =>
      simp only [appStep, hpc] at h
      cases h
      exact hs.move hl ⟨rfl, rfl, rfl, rfl, rfl, rfl, rfl⟩ rfl rfl List.prefix_rfl hscript rfl
        (by simp [hpc]) (by simp [hpc]) (by simp)
  | _ => exact hplain.elim

/-- The steps of `connectTo` after the first. -/
theorem conduct_connectTo (hs : s.Conduct script n) {l : AppLabel} {ip port : Bytes} {dest : Cliid}
    {r : List (Nat × N × Cliid × Bytes)} (hr : r <+: s.received)
    (hscript : script s.rets r = some (.connectTo ip port dest))
    (hin : s.Within (.connectTo ip port dest) (s.app n)) (h : s.appStep n l = some s') :
    s'.Conduct script n := by
  have hl := later_of_app h
  have hr' := hr.trans hl.received
  have hgo := goesOn_of_appStep h
  rcases hin with hpc | hpc | hpc | hpc | hpc <;> simp only [GoesOn, hpc] at hgo
  · subst hgo
    exact hs.move hl ⟨rfl, rfl, rfl, rfl, rfl, rfl, rfl⟩ rfl rfl hr' hscript (.inr (.inl rfl))
      (by simp [hpc]) (by simp [hpc]) (by simp)
  · rcases hgo with rfl | rfl
    · -- the request is handed over
      have hcalled : s.Called script (.connectTo ip port dest) :=
        ⟨s.rets, r, List.prefix_rfl, hr, hscript⟩
      apply hs.goto hl rfl rfl hr' hscript (.inr (.inr (.inl rfl)))
      · exact fun e he => .inl he
      · intro d hd
        rcases List.mem_append.mp hd with hd | hd
        · obtain ⟨e, he, rfl⟩ := List.mem_map.mp hd
          rcases List.mem_append.mp he with he | he
          · exact .inl (List.mem_append_left _ (List.mem_map_of_mem he))
          · rw [List.mem_singleton.mp he]
            exact .inr ⟨ip, port, dest, hcalled.later hl, rfl⟩
        · exact .inl (List.mem_append_right _ hd)
      · simp [hpc, CommHandler.goto, enqueue]
        omega
      · simp [hpc, CommHandler.goto, enqueue]
      · simp [hpc, CommHandler.goto, enqueue]
      · exact hs.quiet
    · exact hs.ret hl ⟨rfl, rfl, rfl, rfl, rfl, rfl, rfl⟩ rfl rfl hr' hscript rfl
        (by simp [hpc]) (by simp [hpc]) (by simp [Request.api])
  · subst hgo
    exact hs.move hl ⟨rfl, rfl, rfl, rfl, rfl, rfl, rfl⟩ rfl rfl hr' hscript
      (.inr (.inr (.inr (.inl rfl)))) (by simp [hpc]) (by simp [hpc]) (by simp)
  · subst hgo
    exact hs.move hl ⟨rfl, rfl, rfl, rfl, rfl, rfl, rfl⟩ rfl rfl hr' hscript
      (.inr (.inr (.inr (.inr rfl)))) (by simp [hpc, Request.api]) (by simp [hpc])
      (by simp [Request.api])
  · subst hgo
    exact hs.ret hl ⟨rfl, rfl, rfl, rfl, rfl, rfl, rfl⟩ rfl rfl hr' hscript rfl
      (by simp [hpc]) (by simp [hpc]) (by simp)

/-- The steps of `recv` after the first. -/
theorem conduct_recv (hs : s.Conduct script n) {l : AppLabel} {r : List (Nat × N × Cliid × Bytes)}
    (hr : r <+: s.received) (hscript : script s.rets r = some .recv)
    (hin : s.Within .recv (s.app n)) (h : s.appStep n l = some s') : s'.Conduct script n := by
  have hl := later_of_app h
  have hr' := hr.trans hl.received
  have hgo := goesOn_of_appStep h
  rcases hin with hpc | ⟨e, he, hpc⟩ <;> simp only [GoesOn, hpc] at hgo
  · obtain ⟨e, q, rfl⟩ := hgo
    apply hs.goto hl rfl rfl hr' hscript
    · exact .inr ⟨e, List.mem_append_right _ List.mem_cons_self, rfl⟩
    · exact fun e he => .inl he
    · exact fun d hd => .inl hd
    · simp [hpc, CommHandler.goto]
    · simp [hpc, CommHandler.goto]
    · simp [hpc, CommHandler.goto]
    · exact hs.quiet
  · subst hgo
    have hans : (s.ret n .recv (if s.errcode ≠ 0 then -1 else e.2.2.2.length)).Answers
        .recv .recv (if s.errcode ≠ 0 then -1 else e.2.2.2.length) := by
      refine ⟨rfl, ?_⟩
      split_ifs with herr
      · exact .inr ⟨rfl, herr⟩
      · exact .inl ⟨e, he, rfl⟩
    refine hs.ret hl ⟨rfl, rfl, rfl, rfl, rfl, rfl, rfl⟩ rfl rfl hr' hscript hans (by simp [hpc])
      (by simp [hpc]) ?_
    rw [hpc]
    exact List.countP_le_length

/-- **A step of the thread in a call keeps the conduct.** -/
theorem conduct_goesOn (hs : s.Conduct script n) (hdesk : s.Desk) {l call : AppLabel}
    {r : List (Nat × N × Cliid × Bytes)} (hr : r <+: s.received)
    (hscript : script s.rets r = some call) (hin : s.Within call (s.app n))
    (h : s.appStep n l = some s') : s'.Conduct script n := by
  have hl := later_of_app h
  have hr' := hr.trans hl.received
  have hgo := goesOn_of_appStep h
  cases call with
  | connectTo ip port dest => exact conduct_connectTo hs hr hscript hin h
  | send cid data =>
      have hpc : s.app n = .testing (.send cid data) data.length := hin
      simp only [GoesOn, hpc] at hgo
      subst hgo
      have hans : (s.ret n (.send cid data) (if s.errcode ≠ 0 then -1 else data.length)).Answers
          (.send cid data) (.send cid data) (if s.errcode ≠ 0 then -1 else data.length) := by
        refine ⟨rfl, ?_⟩
        split_ifs with herr
        · exact .inr ⟨rfl, herr⟩
        · exact .inl rfl
      exact hs.ret hl ⟨rfl, rfl, rfl, rfl, rfl, rfl, rfl⟩ rfl rfl hr' hscript hans (by simp [hpc])
        (by simp [hpc]) (by simp)
  | recv => exact conduct_recv hs hr hscript hin h
  | getOneConnection =>
      have hpc : s.app n = .popping := hin
      simp only [GoesOn, hpc] at hgo
      obtain ⟨c, q, hq, rfl⟩ := hgo
      have hmem : c ∈ s.clientLog := by
        obtain ⟨taken, hlog, -⟩ := hdesk.order
        rw [hlog, hq]
        exact List.mem_append_right _ List.mem_cons_self
      exact hs.ret hl ⟨rfl, rfl, rfl, rfl, rfl, rfl, rfl⟩ rfl rfl hr' hscript
        ⟨rfl, .inl ⟨c, hmem, rfl⟩⟩ (by simp [hpc]) (by simp [hpc]) (by simp)
  | shutdown =>
      have hpc : s.app n = .joining := hin
      simp only [GoesOn, hpc] at hgo
      subst hgo
      exact hs.ret hl ⟨rfl, rfl, rfl, rfl, rfl, rfl, rfl⟩ rfl rfl hr' hscript rfl (by simp [hpc])
        (by simp [hpc]) (by simp)
  | _ => exact hin.elim

/-- **A step of the thread keeps the conduct.** -/
theorem conduct_appStep (hplain : ∀ h r l, script h r = some l → l.Plain)
    (hs : s.Conduct script n) (hdesk : s.Desk) {l : AppLabel}
    (hplays : s.app n = .idle → script s.rets s.received = some l)
    (h : s.appStep n l = some s') : s'.Conduct script n := by
  rcases hs.within with hpc | ⟨call, r, hr, hscript, hin⟩
  · exact conduct_call hs (hplain _ _ _ (hplays hpc)) (hplays hpc) hpc h
  · exact conduct_goesOn hs hdesk hr hscript hin h

theorem later_of_comm {hwm : Nat} {l : CommLabel N} (h : s.commStep hwm l = some s') :
    Later s s' := by
  obtain ⟨-, hrets, -, -⟩ := commStep_frame h
  have hfields : s'.received = s.received ∧ s'.acceptConns = s.acceptConns := by
    cases commTrans_of_commStep h <;> exact ⟨rfl, rfl⟩
  refine ⟨by rw [hrets], by rw [hfields.1], ?_, ?_, hfields.2⟩
  · obtain ⟨-, -, hlog | ⟨c, m, q, -, -, -, -, hlog⟩⟩ := clients_commStep h
    · rw [hlog]
    · rw [hlog]
      exact List.prefix_append _ _
  · rcases commStep_errcode h with herr | herr <;> rw [herr]
    · exact fun herr => herr
    · exact fun _ => Nat.one_ne_zero

/-- The comm thread asks for the connections it is told to ask for. -/
theorem connects_commStep {hwm : Nat} {l : CommLabel N} (h : s.commStep hwm l = some s') :
    s'.connSock.map (fun e => e.2.1) ++ s'.asked ⊆ s.connSock.map (fun e => e.2.1) ++ s.asked ∧
    s'.connSock.length + s'.routerConns.length ≤ s.connSock.length + s.routerConns.length := by
  cases commTrans_of_commStep h with
  | conn hpc hpop =>
      rename_i rest t behind dest text q
      have hperm := pop_perm hpop
      have hlen := hperm.length_eq
      refine ⟨?_, ?_⟩
      · intro d hd
        rcases List.mem_append.mp hd with hd | hd
        · obtain ⟨e, he, rfl⟩ := List.mem_map.mp hd
          exact List.mem_append_left _ (List.mem_map_of_mem (mem_of_mem_pop hpop he))
        · simp only [asked, List.map_append, List.map_singleton, List.mem_append,
            List.mem_singleton] at hd
          rcases hd with hd | rfl
          · exact List.mem_append_right _ hd
          · exact List.mem_append_left _ (List.mem_map_of_mem (mem_of_pop hpop))
      · simp only [List.length_append, List.length_cons, List.length_nil] at hlen ⊢
        omega
  | connFail hpc hpop =>
      have hlen := (pop_perm hpop).length_eq
      refine ⟨?_, ?_⟩
      · apply List.append_subset.mpr ⟨?_, List.subset_append_right _ _⟩
        intro d hd
        obtain ⟨e, he, rfl⟩ := List.mem_map.mp hd
        exact List.mem_append_left _ (List.mem_map_of_mem (mem_of_mem_pop hpop he))
      · rw [List.length_cons] at hlen
        show _ + s.routerConns.length ≤ _
        simp only [unlock, failed]
        omega
  | _ => exact ⟨List.Subset.refl _, le_rfl⟩

/-- The comm thread publishes what it is told to publish. -/
theorem quiet_commStep {hwm : Nat} {l : CommLabel N} (hs : s.Quiet)
    (h : s.commStep hwm l = some s') : s'.Quiet := by
  obtain ⟨hqueue, hout, harr⟩ := hs
  cases commTrans_of_commStep h with
  | pubSend hpc hpop | pubSendFail hpc hpop =>
      have hmem := mem_of_pop hpop
      rw [hqueue] at hmem
      cases hmem
  | subSockNew hpc hq | subSockOld hpc hq | subSockTask hpc hq =>
      rw [harr] at hq
      cases hq
  | _ => exact ⟨hqueue, hout, harr⟩

/-- **A step of the comm thread keeps the conduct.** -/
theorem conduct_commStep {hwm : Nat} {l : CommLabel N} (hs : s.Conduct script n)
    (h : s.commStep hwm l = some s') : s'.Conduct script n := by
  obtain ⟨hsend, hrets, happ, -⟩ := commStep_frame h
  obtain ⟨hconn, hcount⟩ := connects_commStep h
  exact hs.unmoved (later_of_comm h) happ hrets hsend hconn hcount (quiet_commStep hs.quiet h)

theorem conduct_init (id : Cliid) (acceptConns : Bool) :
    (init N id acceptConns).Conduct script n where
  within := .inl rfl
  returned i e hi := by cases hi
  sent e he := by cases he
  connected d hd := by cases hd
  connects := le_rfl
  sends d := le_rfl
  receives := le_rfl
  quiet := ⟨rfl, rfl, rfl⟩

/-- No item of `taskq`, or on its way there, was published. -/
def Unpublished (s : CommHandler N) : Prop :=
  ∀ e ∈ s.taskLog ++ s.heldTask, ∀ t, e.2.origin ≠ .publish t

theorem unpublished_commStep {hwm : Nat} {l : CommLabel N} (hs : s.Unpublished) (hquiet : s.Quiet)
    (hin : ∀ e ∈ s.routerIn, ∀ t, e.2.origin ≠ .publish t) (h : s.commStep hwm l = some s') :
    s'.Unpublished := by
  have hold : ∀ e ∈ s.taskLog, ∀ t, e.2.origin ≠ .publish t :=
    fun e he => hs e (List.mem_append_left _ he)
  have hnone : ∀ {u : CommHandler N}, u.taskLog = s.taskLog → u.heldTask = [] → u.Unpublished := by
    intro u hu hheld e he
    rw [hu, hheld, List.append_nil] at he
    exact hold e he
  cases commTrans_of_commStep h with
  | helloRetry => exact hs
  | routerTask hpc hpop hd hmap =>
      apply forall_mem_concat hold
      intro t
      rw [Msg.forwarded_origin]
      exact hin _ (mem_of_pop hpop) t
  | subSockTask hpc hq =>
      rw [hquiet.2.2] at hq
      cases hq
  | pushTask hpc =>
      intro e he
      refine hs e ?_
      simpa [heldTask, hpc] using he
  | _ => exact hnone rfl rfl

theorem unpublished_appStep {t : N} {l : AppLabel} (hs : s.Unpublished)
    (h : s.appStep t l = some s') : s'.Unpublished := by
  have hf := appFrame_of_appStep h
  rw [Unpublished, heldTask, hf.pc, hf.taskLog]
  exact hs

/-- What does not touch the thread, its records and its requests keeps the conduct. -/
theorem Conduct.congr (hs : s.Conduct script n) (hk : Keeps s s') (happ : s'.app = s.app)
    (hrets : s'.rets = s.rets) (hlog : s'.clientLog = s.clientLog) (herr : s'.errcode = s.errcode)
    (hacc : s'.acceptConns = s.acceptConns) : s'.Conduct script n := by
  apply hs.unmoved _ happ hrets hk.sendLog _ _ (hk.quiet hs.quiet)
  · exact ⟨by rw [hrets], by rw [hk.received], by rw [hlog], fun h => herr ▸ h, hacc⟩
  · rw [hk.connSock, hk.asked]
    exact List.Subset.refl _
  · rw [hk.connSock, hk.routerConns]

/-! ## Calls that a script makes once -/

/-- A kind of call that the script makes at one place only is made at most once: it has returned, or
the thread is in it. -/
theorem Conduct.once (hs : s.Conduct script n) {P : AppLabel → Prop} {p : N × Api × Int → Bool}
    {f : AppPc → Nat}
    (hplace : ∀ h r l h' r' l', h <+: s.rets → r <+: s.received → h' <+: s.rets →
      r' <+: s.received → script h r = some l → script h' r' = some l' → P l → P l' →
      h.length = h'.length)
    (hrets : ∀ l e, s.Answers l e.2.1 e.2.2 → p e = true → P l)
    (hpc : ∀ l, s.Within l (s.app n) → f (s.app n) ≠ 0 → P l) (hidle : f .idle = 0)
    (hone : f (s.app n) ≤ 1) : s.rets.countP p + f (s.app n) ≤ 1 := by
  have hreturned : ∀ i e, s.rets[i]? = some e → p e = true → ∃ h r l, h <+: s.rets ∧
      r <+: s.received ∧ script h r = some l ∧ P l ∧ h.length = i := by
    intro i e hi he
    obtain ⟨l, r, hr, hscript, hans⟩ := hs.returned i e hi
    refine ⟨s.rets.take i, r, l, List.take_prefix _ _, hr, hscript, hrets l e hans he, ?_⟩
    have hlt := (List.getElem?_eq_some_iff.mp hi).1
    rw [List.length_take]
    omega
  have hcount : s.rets.countP p ≤ 1 := by
    apply Count.countP_le_one
    intro i j x y hi hx hj hy
    obtain ⟨h, r, l, hh, hr, hcall, hl, rfl⟩ := hreturned i x hi hx
    obtain ⟨h', r', l', hh', hr', hcall', hl', rfl⟩ := hreturned j y hj hy
    exact hplace h r l h' r' l' hh hr hh' hr' hcall hcall' hl hl'
  by_cases hf : f (s.app n) = 0
  · omega
  · rcases hs.within with hin | ⟨l', r', hr', hcall', hin⟩
    · exact absurd (hin ▸ hidle) hf
    · -- a call that is still going on has not returned
      have hnone : s.rets.countP p = 0 := by
        rw [List.countP_eq_zero]
        intro e he hp
        obtain ⟨i, hi⟩ := List.mem_iff_getElem?.mp he
        obtain ⟨h, r, l, hh, hr, hcall, hl, rfl⟩ := hreturned i e hi hp
        have hsame := hplace h r l s.rets r' l' hh hr List.prefix_rfl hr' hcall hcall' hl
          (hpc l' hin hf)
        have hlt := (List.getElem?_eq_some_iff.mp hi).1
        omega
      omega

/-- A script with one place for a `connect_to` asks for one connection at most. -/
theorem Conduct.connects_once (hs : s.Conduct script n)
    (hplace : ∀ h r ip port dest h' r' ip' port' dest', script h r = some (.connectTo ip port dest) →
      script h' r' = some (.connectTo ip' port' dest') → h.length = h'.length) :
    s.connSock.length + s.routerConns.length ≤ 1 := by
  have hone : s.rets.countP isConnect + (s.app n).connecting ≤ 1 := by
    apply hs.once (P := fun l => ∃ ip port dest, l = .connectTo ip port dest) _ _ _ rfl
    · unfold AppPc.connecting
      split <;> omega
    · rintro h r l h' r' l' - - - - hcall hcall' ⟨ip, port, dest, rfl⟩ ⟨ip', port', dest', rfl⟩
      exact hplace h r ip port dest h' r' ip' port' dest' hcall hcall'
    · intro l e hans he
      cases l with
      | connectTo ip port dest => exact ⟨ip, port, dest, rfl⟩
      | send | recv | getOneConnection => simp [isConnect, hans.1] at he
      | shutdown => simp [isConnect, show e.2.1 = .shutdown from hans] at he
      | _ => exact hans.elim
    · intro l hin hne
      cases l with
      | connectTo ip port dest => exact ⟨ip, port, dest, rfl⟩
      | send cid data => exact absurd (by rw [show s.app n = _ from hin]; rfl) hne
      | recv => rcases hin with hin | ⟨e, -, hin⟩ <;> exact absurd (by rw [hin]; rfl) hne
      | getOneConnection | shutdown => exact absurd (by rw [show s.app n = _ from hin]; rfl) hne
      | _ => exact hin.elim
  have hconnects := hs.connects
  omega

/-- A script with one place for a `send` to `d` sends one message there at most. -/
theorem Conduct.sends_once (hs : s.Conduct script n) {d : Cliid}
    (hplace : ∀ h r cid data h' r' cid' data', h <+: s.rets → r <+: s.received → h' <+: s.rets →
      r' <+: s.received → script h r = some (.send cid data) →
      script h' r' = some (.send cid' data') → ide2i cid = d → ide2i cid' = d →
      h.length = h'.length) : s.sendLog.countP (fun e => e.2.1 = d) ≤ 1 := by
  have hone : s.rets.countP (isSend d) + (s.app n).sending d ≤ 1 := by
    apply hs.once (P := fun l => ∃ cid data, l = .send cid data ∧ ide2i cid = d) _ _ _ rfl
    · unfold AppPc.sending
      split
      · split_ifs <;> omega
      · omega
    · rintro h r l h' r' l' hh hr hh' hr' hcall hcall' ⟨cid, data, rfl, hd⟩ ⟨cid', data', rfl, hd'⟩
      exact hplace h r cid data h' r' cid' data' hh hr hh' hr' hcall hcall' hd hd'
    · intro l e hans he
      cases l with
      | send cid data =>
          rw [isSend, hans.1] at he
          exact ⟨cid, data, rfl, of_decide_eq_true he⟩
      | recv | getOneConnection => simp [isSend, hans.1] at he
      | connectTo => simp [isSend, show e.2.1 = _ from hans] at he
      | shutdown => simp [isSend, show e.2.1 = .shutdown from hans] at he
      | _ => exact hans.elim
    · intro l hin hne
      cases l with
      | send cid data =>
          rw [show s.app n = _ from hin, AppPc.sending] at hne
          refine ⟨cid, data, rfl, ?_⟩
          by_contra hd
          exact hne (if_neg hd)
      | connectTo =>
          rcases hin with hin | hin | hin | hin | hin <;> exact absurd (by rw [hin]; rfl) hne
      | recv => rcases hin with hin | ⟨e, -, hin⟩ <;> exact absurd (by rw [hin]; rfl) hne
      | getOneConnection | shutdown => exact absurd (by rw [show s.app n = _ from hin]; rfl) hne
      | _ => exact hin.elim
  exact (hs.sends d).trans hone

end CommHandler

end CommTest.Zmq
