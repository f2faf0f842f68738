import CommTest.Zmq.Errcode

/-!
# Is the caller of a failing request released?

The callers of `connect_to`, `init_pub` (with an address) and `subscribe_to` wait on their second
lock of `sync_mtx`, and the comm thread may die of their request: a failing receive, connect, bind
or `setsockopt`. The block of `conn_sock` unlocks before it returns; the blocks of `subpull` and
`pubstart_pull` return with the mutex held.

* `Watched τ` is a node with two histories that no step reads: the threads whose request killed the
  comm thread and that have not passed their second lock, and whether that failure left the mutex
  free.
* `ReleasesFailed` is what a caller relies on: the failure left the mutex free, no thread whose
  request failed is blocked, and the tests of `errcode` return -1.
* `HandsBack` is the condition on one step, and `releasesFailed_iff_handsBack` the result: the
  states of a run are all of that kind if and only if all its steps meet the condition.
-/

set_option linter.unusedSectionVars false

namespace CommTest.Zmq

open FairQueue Lts

variable {τ : Type} [DecidableEq τ]

/-- The event block that serves a request. -/
def Request.block : Request → Block
  | .connect _ _ => .conn
  | .pubStart _ _ _ => .pubStart
  | .subscribe _ => .sub

/-- The block of a request whose failure made the comm thread return. -/
def CommPc.failedRequest : CommPc τ → Option Block
  | .exited (.block .conn) => some .conn
  | .exited (.block .sub) => some .sub
  | .exited (.block .pubStart) => some .pubStart
  | _ => none

namespace CommHandler

/-- Thread `t` is before its second lock for a request that block `b` serves. -/
def waitsFor (s : CommHandler τ) (b : Block) (t : τ) : Bool :=
  match s.app t with
  | .waiting r => r.block = b
  | _ => false

/-- Thread `t` is before its second lock and the mutex is held. -/
def Blocked (s : CommHandler τ) (t : τ) : Prop := (∃ r, s.app t = .waiting r) ∧ s.mtx ≠ none

/-- The threads a failing step of block `b` fails: the one whose request it took, and at a failing
receive those with a request in the pipe. -/
def issuers (s : CommHandler τ) (b : Block) : CommLabel τ → List τ
  | .conn t _ _ | .sub t _ _ _ | .pubStart t _ _ => [t]
  | .recvFail =>
      match b with
      | .conn => s.connSock.map Prod.fst
      | .sub => s.subpull.map Prod.fst
      | .pubStart => s.pubstartPull.map Prod.fst
      | _ => []
  | _ => []

/-- One of the socket calls of the `subpull` block throws on this text. -/
def subThrows (text behind : Bytes) (junk : Cliid) : Option Nat → Bool
  | none => false
  | some 0 => subRequestAddr text behind ≠ []
  | some (_ + 1) => (subRequestGids junk text behind).isSome

/-- A socket call of the `subpull` block or of the `pubstart_pull` block fails. -/
def requestError (s : CommHandler τ) : CommLabel τ → Bool
  | .recvFail =>
      match s.pc with
      | .blocks (.sub :: _) | .blocks (.pubStart :: _) => true
      | _ => false
  | .sub t behind junk fails =>
      match pop t s.subpull with
      | some (text, _) => subThrows text behind junk fails
      | none => false
  | .pubStart _ _ ok => !ok
  | _ => false

/-- The calls, and the steps inside a call, that test `errcode`. -/
def testsErrcode (s : CommHandler τ) (t : τ) (l : AppLabel) : Option Api :=
  match s.app t, l with
  | .idle, l => errcodeTested l
  | .testing api _, .test => some api
  | .announce gid numSubs nsubs, .announce => if nsubs < numSubs then some (.initPub gid) else none
  | .announced gid _ _, .announced => some (.initPub gid)
  | _, _ => none

/-- Every test of `errcode` makes its call return -1 when it is set. -/
theorem appStep_of_testsErrcode {s : CommHandler τ} (herr : s.errcode ≠ 0) {t : τ} {l : AppLabel}
    {api : Api} (hl : s.testsErrcode t l = some api) : s.appStep t l = some (s.ret t api (-1)) := by
  unfold testsErrcode at hl
  split at hl
  · rename_i hidle
    exact appStep_of_errcode herr hidle hl
  · rename_i api' v hpc
    cases hl
    simp [appStep, hpc, herr]
  · rename_i gid numSubs nsubs hpc
    split_ifs at hl with hlt
    cases hl
    simp [appStep, hpc, herr, hlt]
  · rename_i gid numSubs nsubs hpc
    cases hl
    simp [appStep, hpc, herr]
  · cases hl

end CommHandler

/-! ## A watched node -/

/-- A node with the callers its comm thread died of. -/
structure Watched (τ : Type) where
  node : CommHandler τ
  /-- The threads whose request failed and that have not passed their second lock. -/
  failed : List τ
  /-- The mutex was free after the failure. -/
  freed : Bool

namespace Watched

/-- A node that has just been constructed. -/
def init (τ : Type) (id : Cliid) (acceptConns : Bool) : Watched τ :=
  ⟨CommHandler.init τ id acceptConns, [], true⟩

/-- What a step of the node into `s'` adds to the histories. -/
def record (w : Watched τ) (s' : CommHandler τ) : Label τ → Watched τ
  | .comm l =>
      match s'.pc.failedRequest with
      | some b => ⟨s', (w.node.issuers b l).filter (w.node.waitsFor b), s'.mtx.isNone⟩
      | none => { w with node := s' }
  | .app t .relock => { w with node := s', failed := w.failed.filter (· ≠ t) }
  | _ => { w with node := s' }

/-- One step of the node, watched. -/
def step (hwm : Nat) (w : Watched τ) (l : Label τ) : Option (Watched τ) :=
  (w.node.step hwm l).map fun s' => w.record s' l

/-- **A failing request releases its caller**: the failure left the mutex free, no thread whose
request failed is blocked on its second lock, and from then on the tests of `errcode` return -1. -/
structure ReleasesFailed (w : Watched τ) : Prop where
  freed : w.freed = true
  released : ∀ t ∈ w.failed, ¬ w.node.Blocked t
  calls : ∀ b, w.node.pc.failedRequest = some b → w.node.errcode ≠ 0 ∧
    ∀ t l api, w.node.testsErrcode t l = some api → w.node.appStep t l = some (w.node.ret t api (-1))

/-- No socket call of the `subpull` and `pubstart_pull` blocks fails while `sync_mtx` is held, and
nobody takes `sync_mtx` between a failure and the second lock of the caller that waits for it. -/
def HandsBack (w : Watched τ) : Label τ → Prop
  | .comm l => w.node.requestError l = true → w.node.mtx = none
  | .app u .lock | .app u .relock => ∀ t ∈ w.failed, t = u
  | _ => True

end Watched

/-! ## What a step does to the mutex and to the callers -/

namespace CommHandler

/-- The `subpull` block dies exactly when one of its socket calls throws, and leaves the mutex
alone. -/
theorem subBlock_throws {s s' : CommHandler τ} {t : τ} {behind : Bytes} {junk : Cliid}
    {fails : Option Nat} {rest : List Block} {text : Bytes} {q : List (τ × Bytes)}
    (hpop : pop t s.subpull = some (text, q)) (h : s.subBlock t behind junk fails rest = some s') :
    (subThrows text behind junk fails = true ∧ s'.pc = .exited (.block .sub) ∧ s'.errcode ≠ 0 ∧
      s'.mtx = s.mtx) ∨
    (subThrows text behind junk fails = false ∧ s'.pc.failedRequest = none) := by
  simp only [subBlock, hpop] at h
  by_cases hlen : recvLen text < 0
  · rw [if_pos hlen] at h
    cases h
  rw [if_neg hlen] at h
  by_cases haddr : subRequestAddr text behind ≠ [] ∧ fails = some 0
  · rw [if_pos haddr] at h
    cases h
    exact .inl ⟨by simp [subThrows, haddr.1, haddr.2], rfl, one_ne_zero, rfl⟩
  rw [if_neg haddr] at h
  cases hids : subRequestGids junk text behind with
  | none =>
      rw [hids] at h
      cases h
      refine .inr ⟨?_, rfl⟩
      match fails with
      | none => rfl
      | some 0 => simpa [subThrows] using haddr
      | some (k + 1) => simp [subThrows, hids]
  | some ids =>
      rw [hids] at h
      match fails with
      | none =>
          cases h
          exact .inr ⟨rfl, rfl⟩
      | some 0 =>
          cases h
          exact .inr ⟨by simpa [subThrows] using haddr, rfl⟩
      | some (k + 1) =>
          simp only at h
          split_ifs at h
          cases h
          exact .inl ⟨by simp [subThrows, hids], rfl, one_ne_zero, rfl⟩

/-- What a step of the comm thread says about a failed request: it dies of one with `errcode` set,
and then it leaves the mutex alone if the error is one of the `subpull` and `pubstart_pull` blocks
and frees it otherwise; such an error always ends it. -/
theorem commStep_failedRequest {hwm : Nat} {s s' : CommHandler τ} {l : CommLabel τ}
    (h : s.commStep hwm l = some s') :
    (s'.pc.failedRequest = none ∧ s.requestError l = false) ∨
    (∃ b, s'.pc.failedRequest = some b ∧ s'.errcode ≠ 0 ∧
      (s.requestError l = true ∧ s'.mtx = s.mtx ∨ s.requestError l = false ∧ s'.mtx = none)) := by
  have hsub : ∀ rest t behind junk fails text q, s.pc = .blocks (.sub :: rest) →
      pop t s.subpull = some (text, q) → l = .sub t behind junk fails →
      (s'.pc.failedRequest = none ∧ s.requestError l = false) ∨
      (∃ b, s'.pc.failedRequest = some b ∧ s'.errcode ≠ 0 ∧
        (s.requestError l = true ∧ s'.mtx = s.mtx ∨
          s.requestError l = false ∧ s'.mtx = none)) := by
    rintro rest t behind junk fails text q hpc hpop rfl
    simp only [commStep, hpc] at h
    rcases subBlock_throws hpop h with ⟨hb, hpc', herr, hm⟩ | ⟨hb, hpc'⟩
    · exact .inr ⟨.sub, by rw [hpc']; rfl, herr, .inl ⟨by simp [requestError, hpop, hb], hm⟩⟩
    · exact .inl ⟨hpc', by simp [requestError, hpop, hb]⟩
  cases commTrans_of_commStep h with
  | sub hpc hpop | subConnFail hpc hpop | subSetFail hpc hpop | subSpin hpc hpop =>
      exact hsub _ _ _ _ _ _ _ hpc hpop rfl
  | recvFail hpc hb hs =>
      rename_i b rest
      cases b with
      | sub => exact .inr ⟨.sub, rfl, one_ne_zero, .inl ⟨by simp [requestError, hpc], rfl⟩⟩
      | pubStart =>
          exact .inr ⟨.pubStart, rfl, one_ne_zero, .inl ⟨by simp [requestError, hpc], rfl⟩⟩
      | conn => exact absurd rfl hb
      | shutdown => exact absurd rfl hs
      | msgq | router | monitor | pubSend | subSock => exact .inl ⟨rfl, by simp [requestError, hpc]⟩
  | recvFailConn hpc =>
      exact .inr ⟨.conn, rfl, one_ne_zero, .inr ⟨by simp [requestError, hpc], rfl⟩⟩
  | connFail => exact .inr ⟨.conn, rfl, one_ne_zero, .inr ⟨rfl, rfl⟩⟩
  | pubStartFail => exact .inr ⟨.pubStart, rfl, one_ne_zero, .inl ⟨rfl, rfl⟩⟩
  | helloRetry hpc => exact .inl ⟨by rw [hpc]; rfl, rfl⟩
  | _ => exact .inl ⟨rfl, rfl⟩

/-- An application thread moves itself only; only its two locks take the mutex, and a thread before
its second lock can do nothing else. -/
theorem appStep_lock {s s' : CommHandler τ} {u : τ} {l : AppLabel} (h : s.appStep u l = some s') :
    (∃ pc, s'.app = Function.update s.app u pc) ∧
    ((∃ r, l = .lock ∧ s.app u = .calling r ∧ s'.mtx = some (.app u)) ∨
      (∃ r, l = .relock ∧ s.app u = .waiting r ∧ s'.mtx = some (.app u)) ∨
      (l ≠ .lock ∧ l ≠ .relock ∧ (∀ r, s.app u ≠ .waiting r) ∧
        (s'.mtx = s.mtx ∨ s'.mtx = none))) := by
  obtain ⟨pullers, hattach⟩ := attachTask_eq s u
  cases appTrans_of_appStep h with
  | lock hpc => exact ⟨⟨_, rfl⟩, .inl ⟨_, rfl, hpc, rfl⟩⟩
  | relock hpc => exact ⟨⟨_, rfl⟩, .inr (.inl ⟨_, rfl, hpc, rfl⟩)⟩
  | reject hpc | call hpc | announceStart hpc =>
      refine ⟨⟨_, rfl⟩, .inr (.inr ⟨?_, ?_, by simp [hpc], .inl rfl⟩)⟩ <;>
      · rintro rfl
        simp [appStep, hpc] at h
  | sendReq hpc =>
      rename_i r
      cases r <;> exact ⟨⟨_, rfl⟩, .inr (.inr ⟨by simp, by simp, by simp [hpc], .inl rfl⟩)⟩
  | unlock hpc =>
      rename_i r
      cases r <;> exact ⟨⟨_, rfl⟩, .inr (.inr ⟨by simp, by simp, by simp [hpc], .inr rfl⟩)⟩
  | sendReqFail hpc =>
      exact ⟨⟨_, rfl⟩, .inr (.inr ⟨by simp, by simp, by simp [hpc], .inr rfl⟩)⟩
  | recv hpc | recvAsync hpc | recvAsyncEmpty hpc | recvAsyncNone hpc =>
      rw [hattach]
      exact ⟨⟨_, rfl⟩, .inr (.inr ⟨by simp, by simp, by simp [hpc], .inl rfl⟩)⟩
  | announce hpc | announced hpc | announcedFail hpc | announceEnd hpc | drain hpc | drainEmpty hpc
  | drainEnd hpc | publish hpc | send hpc | recvDone hpc | getOneConnection hpc | pop hpc
  | shutdown hpc | join hpc | test hpc =>
      exact ⟨⟨_, rfl⟩, .inr (.inr ⟨by simp, by simp, by simp [hpc], .inl rfl⟩)⟩

/-- The comm thread moves no application thread. -/
theorem commStep_app {hwm : Nat} {s s' : CommHandler τ} {l : CommLabel τ}
    (h : s.commStep hwm l = some s') : s'.app = s.app := by
  cases commTrans_of_commStep h <;> rfl

/-- A comm thread that has returned takes no step. -/
theorem commStep_of_failedRequest {hwm : Nat} {s : CommHandler τ} {b : Block} (l : CommLabel τ)
    (h : s.pc.failedRequest = some b) : s.commStep hwm l = none := by
  cases hpc : s.pc with
  | exited e => simp [commStep, hpc]
  | _ =>
      rw [hpc] at h
      cases h

end CommHandler

/-! ## The invariant -/

namespace Watched

/-- What holds in every run: the threads on record wait for their second lock, which they can do
only once the constructor has returned, and the comm thread is gone with `errcode` set. -/
structure OnRecord (w : Watched τ) : Prop where
  waiting : ∀ t ∈ w.failed, ∃ r, w.node.app t = .waiting r
  gone : ∀ t ∈ w.failed, ∃ b, w.node.pc.failedRequest = some b
  returned : w.node.ctor ≠ .returned → ∀ t, w.node.app t = .idle
  errcode : ∀ b, w.node.pc.failedRequest = some b → w.node.errcode ≠ 0

theorem onRecord_init (id : Cliid) (acceptConns : Bool) : (init τ id acceptConns).OnRecord where
  waiting _ h := by cases h
  gone _ h := by cases h
  returned _ _ := rfl
  errcode _ h := by cases h

/-- Whoever is on record has the object. -/
theorem OnRecord.ctor {w : Watched τ} (hw : w.OnRecord) {t : τ} (ht : t ∈ w.failed) :
    w.node.ctor = .returned := by
  by_contra hc
  obtain ⟨r, hr⟩ := hw.waiting t ht
  rw [hw.returned hc t] at hr
  cases hr

/-- A thread on record is blocked when the mutex is held. -/
theorem OnRecord.released_iff {w : Watched τ} (hw : w.OnRecord) :
    (∀ t ∈ w.failed, ¬ w.node.Blocked t) ↔ w.failed = [] ∨ w.node.mtx = none := by
  constructor
  · intro hrel
    cases hf : w.failed with
    | nil => exact .inl rfl
    | cons t ts =>
        have ht : t ∈ w.failed := by rw [hf]; exact List.mem_cons_self
        by_contra hc
        exact hrel t ht ⟨hw.waiting t ht, fun hm => hc (.inr hm)⟩
  · rintro (hf | hm) t ht ⟨-, hb⟩
    · rw [hf] at ht
      cases ht
    · exact hb hm

theorem OnRecord.releasesFailed_iff {w : Watched τ} (hw : w.OnRecord) :
    w.ReleasesFailed ↔ w.freed = true ∧ (w.failed = [] ∨ w.node.mtx = none) := by
  constructor
  · intro h
    exact ⟨h.freed, hw.released_iff.mp h.released⟩
  · rintro ⟨hfreed, hrel⟩
    refine ⟨hfreed, hw.released_iff.mpr hrel, ?_⟩
    intro b hb
    exact ⟨hw.errcode b hb, fun t l api hl =>
      CommHandler.appStep_of_testsErrcode (hw.errcode b hb) hl⟩

theorem step_eq_some {hwm : Nat} {w w' : Watched τ} {l : Label τ} :
    w.step hwm l = some w' ↔ ∃ s', w.node.step hwm l = some s' ∧ w.record s' l = w' :=
  Option.map_eq_some_iff

/-- A step of the comm thread either leaves the histories alone or records its death. -/
theorem comm_cases {hwm : Nat} {w w' : Watched τ} {l : CommLabel τ} (hw : w.OnRecord)
    (h : w.step hwm (.comm l) = some w') :
    w.failed = [] ∧ w'.node.app = w.node.app ∧ w'.node.ctor = w.node.ctor ∧
    ((w'.node.pc.failedRequest = none ∧ w.node.requestError l = false ∧ w'.failed = [] ∧
        w'.freed = w.freed) ∨
      ∃ b, w'.node.pc.failedRequest = some b ∧ w'.node.errcode ≠ 0 ∧
        w'.failed = (w.node.issuers b l).filter (w.node.waitsFor b) ∧
        w'.freed = w'.node.mtx.isNone ∧ (w.node.requestError l = true ∧ w'.node.mtx = w.node.mtx ∨
          w.node.requestError l = false ∧ w'.node.mtx = none)) := by
  obtain ⟨s', hs, rfl⟩ := step_eq_some.mp h
  have hnil : w.failed = [] := by
    refine List.eq_nil_iff_forall_not_mem.mpr ?_
    intro t ht
    obtain ⟨b, hb⟩ := hw.gone t ht
    have hstuck : w.node.step hwm (.comm l) = none := CommHandler.commStep_of_failedRequest l hb
    rw [hs] at hstuck
    cases hstuck
  have happ : s'.app = w.node.app := CommHandler.commStep_app hs
  have hctor : s'.ctor = w.node.ctor := CommHandler.commStep_ctor hs
  rcases CommHandler.commStep_failedRequest hs with ⟨hpc, herr⟩ | ⟨b, hpc, herr, hm⟩
  · have hrec : w.record s' (.comm l) = { w with node := s' } := by simp only [record, hpc]
    rw [hrec]
    exact ⟨hnil, happ, hctor, .inl ⟨hpc, herr, hnil, rfl⟩⟩
  · have hrec : w.record s' (.comm l) =
        ⟨s', (w.node.issuers b l).filter (w.node.waitsFor b), s'.mtx.isNone⟩ := by
      simp only [record, hpc]
    rw [hrec]
    exact ⟨hnil, happ, hctor, .inr ⟨b, hpc, herr, rfl, rfl, hm⟩⟩

/-- A step of another party leaves `errcode` and the comm thread alone. -/
theorem other_frame {hwm : Nat} {w w' : Watched τ} {l : Label τ} (hl : ∀ cl, l ≠ .comm cl)
    (h : w.step hwm l = some w') :
    w'.node.pc = w.node.pc ∧ w'.node.errcode = w.node.errcode ∧ w'.freed = w.freed ∧
      w'.failed ⊆ w.failed := by
  obtain ⟨s', hs, rfl⟩ := step_eq_some.mp h
  cases l with
  | comm cl => exact absurd rfl (hl cl)
  | app u l =>
      obtain ⟨hpc, herr, -⟩ := CommHandler.appStep_frame (CommHandler.step_app_eq_some hs).2
      cases l with
      | relock => exact ⟨hpc, herr, rfl, List.filter_subset_self _⟩
      | _ => exact ⟨hpc, herr, rfl, fun _ h => h⟩
  | ctor l =>
      rcases CommHandler.ctorStep_eq_some hs with ⟨_, _, rfl⟩ | ⟨_, rfl⟩ <;>
        exact ⟨rfl, rfl, rfl, fun _ h => h⟩
  | env l =>
      cases hs
      obtain ⟨hpc, herr, -⟩ := CommHandler.envStep_frame w.node l
      exact ⟨hpc, herr, rfl, fun _ h => h⟩

theorem onRecord_step {hwm : Nat} (w : Watched τ) (l : Label τ) (w' : Watched τ) (hw : w.OnRecord)
    (h : w.step hwm l = some w') : w'.OnRecord := by
  cases l with
  | comm l =>
      obtain ⟨-, happ, hctor, hcase⟩ := comm_cases hw h
      have hret : w'.node.ctor ≠ .returned → ∀ t, w'.node.app t = .idle := by
        rw [happ, hctor]
        exact hw.returned
      rcases hcase with ⟨hpc, -, hf, -⟩ | ⟨b, hpc, herr, hf, -, -⟩
      · refine ⟨?_, ?_, hret, ?_⟩
        · rw [hf]
          intro t ht
          cases ht
        · rw [hf]
          intro t ht
          cases ht
        · rw [hpc]
          intro b hb
          cases hb
      · refine ⟨?_, fun _ _ => ⟨b, hpc⟩, hret, fun _ _ => herr⟩
        intro t ht
        rw [hf, List.mem_filter] at ht
        rw [happ]
        have hwait := ht.2
        unfold CommHandler.waitsFor at hwait
        split at hwait
        · rename_i r hr
          exact ⟨r, hr⟩
        · cases hwait
  | app u l =>
      obtain ⟨hpc, herr, -, hsub⟩ := other_frame (by simp) h
      obtain ⟨s', hs, rfl⟩ := step_eq_some.mp h
      obtain ⟨hret, happ⟩ := CommHandler.step_app_eq_some hs
      obtain ⟨⟨pc, hupd⟩, hlock⟩ := CommHandler.appStep_lock happ
      have hnode : ∀ l', (w.record s' (.app u l')).node = s' := by
        intro l'
        cases l' <;> rfl
      rw [hnode] at hpc herr
      refine ⟨?_, ?_, ?_, ?_⟩
      · intro t ht
        have htu : t ≠ u := by
          rintro rfl
          rcases hlock with ⟨r, -, hc, -⟩ | ⟨r, rfl, -, -⟩ | ⟨-, -, hnw, -⟩
          · obtain ⟨r', hr'⟩ := hw.waiting t (hsub ht)
            rw [hc] at hr'
            cases hr'
          · simp [record] at ht
          · obtain ⟨r', hr'⟩ := hw.waiting t (hsub ht)
            exact hnw r' hr'
        rw [hnode, hupd, Function.update_of_ne htu]
        exact hw.waiting t (hsub ht)
      · intro t ht
        rw [hnode, hpc]
        exact hw.gone t (hsub ht)
      · intro hc
        rw [hnode, (CommHandler.appStep_frame happ).2.2] at hc
        exact absurd hret hc
      · rw [hnode, hpc, herr]
        exact hw.errcode
  | ctor l =>
      obtain ⟨s', hs, rfl⟩ := step_eq_some.mp h
      rcases CommHandler.ctorStep_eq_some hs with ⟨hc, _, rfl⟩ | ⟨hc, rfl⟩
      · exact ⟨hw.waiting, hw.gone, fun _ => hw.returned (by rw [hc]; decide), hw.errcode⟩
      · exact ⟨hw.waiting, hw.gone, fun _ => hw.returned (by rw [hc]; decide), hw.errcode⟩
  | env l =>
      obtain ⟨s', hs, rfl⟩ := step_eq_some.mp h
      cases hs
      cases l <;> exact ⟨hw.waiting, hw.gone, hw.returned, hw.errcode⟩

/-- A lock by `u`: nobody else may be on record. -/
theorem releasesFailed_lock {w w' : Watched τ} {u : τ} (hw' : w'.OnRecord) (hP : w.ReleasesFailed)
    (hfreed : w'.freed = w.freed) (hf : w'.failed = w.failed.filter (· ≠ u))
    (hm : w'.node.mtx = some (.app u)) : w'.ReleasesFailed ↔ ∀ t ∈ w.failed, t = u := by
  rw [hw'.releasesFailed_iff, hfreed, hP.freed, hm, hf]
  simp [List.filter_eq_nil_iff]

/-- **One step keeps the property exactly when it meets the condition.** -/
theorem releasesFailed_step {hwm : Nat} (w : Watched τ) (l : Label τ) (w' : Watched τ)
    (hw : w.OnRecord) (hP : w.ReleasesFailed) (h : w.step hwm l = some w') :
    w'.ReleasesFailed ↔ w.HandsBack l := by
  have hw' := onRecord_step w l w' hw h
  cases l with
  | comm l =>
      rw [hw'.releasesFailed_iff]
      obtain ⟨-, -, -, hcase⟩ := comm_cases hw h
      rcases hcase with ⟨-, herr, hf, hfreed⟩ | ⟨b, hpc, -, hf, hfreed, ⟨herr, hm⟩ | ⟨herr, hm⟩⟩
      · simp [HandsBack, herr, hf, hfreed, hP.freed]
      · rw [hfreed, hm]
        simp only [HandsBack, herr, Option.isNone_iff_eq_none, true_imp_iff]
        exact ⟨fun h => h.1, fun h => ⟨h, .inr h⟩⟩
      · simp [HandsBack, herr, hfreed, hm]
  | app u l =>
      obtain ⟨-, -, hfreed, -⟩ := other_frame (by simp) h
      obtain ⟨s', hs, rfl⟩ := step_eq_some.mp h
      obtain ⟨-, happ⟩ := CommHandler.step_app_eq_some hs
      rcases (CommHandler.appStep_lock happ).2 with ⟨r, rfl, hc, hm⟩ | ⟨r, rfl, hc, hm⟩ | ⟨h1, h2, h3, hm⟩
      · refine releasesFailed_lock hw' hP hfreed ?_ hm
        -- the thread that locks is not on record: it is before its first lock
        refine (List.filter_eq_self.mpr ?_).symm
        intro t ht
        have htu : t ≠ u := by
          rintro rfl
          obtain ⟨r', hr'⟩ := hw.waiting t ht
          rw [hc] at hr'
          cases hr'
        simpa using htu
      · exact releasesFailed_lock hw' hP hfreed rfl hm
      · have hrec : w.record s' (.app u l) = { w with node := s' } := by
          cases l with
          | relock => exact absurd rfl h2
          | _ => rfl
        have hok : w.HandsBack (.app u l) := by
          cases l with
          | lock => exact absurd rfl h1
          | relock => exact absurd rfl h2
          | _ => trivial
        refine iff_of_true ?_ hok
        rw [hw'.releasesFailed_iff, hrec]
        refine ⟨hP.freed, (hw.released_iff.mp hP.released).imp_right ?_⟩
        intro hnone
        rcases hm with hm | hm
        · exact hm.trans hnone
        · exact hm
  | ctor l =>
      obtain ⟨s', hs, rfl⟩ := step_eq_some.mp h
      refine iff_of_true ?_ trivial
      rw [hw'.releasesFailed_iff]
      refine ⟨hP.freed, .inl (List.eq_nil_iff_forall_not_mem.mpr ?_)⟩
      -- the constructor still runs, so nobody has the object
      intro t ht
      have hret := hw.ctor ht
      rcases CommHandler.ctorStep_eq_some hs with ⟨hc, -, -⟩ | ⟨hc, -⟩ <;>
      · rw [hret] at hc
        cases hc
  | env l =>
      obtain ⟨s', hs, rfl⟩ := step_eq_some.mp h
      cases hs
      refine iff_of_true ?_ trivial
      rw [hw'.releasesFailed_iff]
      refine ⟨hP.freed, (hw.released_iff.mp hP.released).imp_right ?_⟩
      intro hnone
      cases l <;> exact hnone

/-- **The caller of every failing request is released in exactly the runs whose steps hand the mutex
back**: for any interleaving, any number of threads and any outcome of the socket calls, all the
states of a run release the callers of failed requests if and only if no socket call of the
`subpull` and `pubstart_pull` blocks fails while `sync_mtx` is held and nobody takes `sync_mtx`
before the caller that a failure has released. -/
theorem releasesFailed_iff_handsBack (hwm : Nat) (id : Cliid) (acceptConns : Bool)
    (ls : List (Label τ)) (w : Watched τ)
    (hrun : exec (step hwm) (init τ id acceptConns) ls = some w) :
    (∀ pre m, pre <+: ls → exec (step hwm) (init τ id acceptConns) pre = some m →
      m.ReleasesFailed) ↔ Meets (step hwm) HandsBack (init τ id acceptConns) ls := by
  have hinit := onRecord_init (τ := τ) id acceptConns
  refine always_iff_meets onRecord_step releasesFailed_step hinit ?_ hrun
  exact hinit.releasesFailed_iff.mpr ⟨rfl, .inl rfl⟩

/-- Construction, then a `connect_to` up to the request. -/
def connecting : List (Label (Fin 2)) :=
  [.comm (.startup true), .comm (.startup true), .comm (.startup true), .ctor .relock, .ctor .unlock,
    .app 0 (.connectTo [104] [49] 2), .app 0 .lock, .app 0 (.sendReq true), .comm (.poll true)]

instance (w : Watched τ) : ∀ l, Decidable (w.HandsBack l)
  | .comm l => inferInstanceAs (Decidable (w.node.requestError l = true → w.node.mtx = none))
  | .app u .lock | .app u .relock => inferInstanceAs (Decidable (∀ t ∈ w.failed, t = u))
  | .app _ (.connectTo _ _ _) | .app _ (.initPub _ _ _ _) | .app _ (.subscribeTo _ _ _)
  | .app _ (.sendReq _) | .app _ .unlock | .app _ .announce | .app _ .announced | .app _ .drain
  | .app _ (.publish _ _) | .app _ (.send _ _) | .app _ .recv | .app _ .recvDone | .app _ .recvAsync
  | .app _ .getOneConnection | .app _ .pop | .app _ .shutdown | .app _ .join | .app _ .test
  | .ctor _ | .env _ => isTrue trivial

/-- A `connect_to` whose connect fails returns -1: the run meets the condition. -/
theorem releasesFailed_connect :
    ∃ w, exec (step 1) (init (Fin 2) 1 false) (connecting ++
        [.comm (.conn 0 [0] false), .app 0 .relock, .app 0 .unlock, .app 0 .test]) = some w ∧
      w.node.rets = [(0, .connectTo (ide2i 2), -1)] ∧ w.ReleasesFailed := by
  obtain ⟨w, hrun, hw⟩ := exists_exec (step 1) (init (Fin 2) 1 false) (connecting ++
    [.comm (.conn 0 [0] false), .app 0 .relock, .app 0 .unlock, .app 0 .test])
    (fun w => w.node.rets = [(0, .connectTo (ide2i 2), -1)]) (by decide)
  refine ⟨w, hrun, of_decide_eq_true hw, ?_⟩
  exact (releasesFailed_iff_handsBack 1 1 false _ w hrun).mpr (by decide) _ w List.prefix_rfl hrun

/-- The bind of `init_pub` fails (the port is in use): the comm thread is gone and the caller is
blocked on its second lock. -/
theorem not_releasesFailed_bind :
    ∃ w, exec (step 1) (init (Fin 2) 1 false)
        [.comm (.startup true), .comm (.startup true), .comm (.startup true), .ctor .relock,
          .ctor .unlock, .app 0 (.initPub [104] [49] 7 1), .app 0 .lock, .app 0 (.sendReq true),
          .comm (.poll true), .comm (.pubStart 0 [0] false)] = some w ∧
      w.node.pc = .exited (.block .pubStart) ∧ w.failed = [0] ∧ w.node.Blocked 0 ∧
      ¬ w.ReleasesFailed := by
  obtain ⟨w, hrun, hw⟩ := exists_exec (step 1) (init (Fin 2) 1 false)
    [.comm (.startup true), .comm (.startup true), .comm (.startup true), .ctor .relock,
      .ctor .unlock, .app 0 (.initPub [104] [49] 7 1), .app 0 .lock, .app 0 (.sendReq true),
      .comm (.poll true), .comm (.pubStart 0 [0] false)]
    (fun w => w.node.pc = .exited (.block .pubStart) ∧ w.failed = [0] ∧
      w.node.app 0 = .waiting (.pubStart (connstr [104] [49]) 7 1) ∧
      w.node.mtx = some (.app 0)) (by decide)
  simp only [decide_eq_true_eq] at hw
  obtain ⟨hpc, hfailed, happ, hm⟩ := hw
  have hblocked : w.node.Blocked 0 := ⟨⟨_, happ⟩, by simp [hm]⟩
  refine ⟨w, hrun, hpc, hfailed, hblocked, ?_⟩
  intro hrel
  exact hrel.released 0 (by simp [hfailed]) hblocked

end Watched

end CommTest.Zmq
