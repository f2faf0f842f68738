import CommTest.Zmq.Transitions

/-!
# `errcode`: is a dead comm thread reported?

The comm thread returns from `start_handler` on some twenty paths. On every path of the poll loop
`errcode` is set first, and so it is when `zmq_socket_monitor` fails at startup; the other three
startup failures (`setsockopt`, the connect of the monitor socket, the bind) unlock `sync_mtx` and
return with `errcode` still 0, so that the constructor returns an object whose comm thread is gone.

* `ReportsDeath` is what callers rely on: a dead comm thread shows in `errcode`, the constructor
  does not return after a failed startup, and the calls that test `errcode` return -1.
* `reportsDeath_iff_no_silentFailure`: a run ends in a state that reports death if and only if none
  of its steps is one of the three silent failures. Hence the runs without them report death in
  every state they reach.
-/

set_option linter.unusedSectionVars false

namespace CommTest.Zmq

open Lts

variable {τ : Type} [DecidableEq τ]

namespace CommHandler

/-- The comm thread has returned, and not because of a shutdown message. -/
def CommDead (s : CommHandler τ) : Prop := ∃ e, s.pc = .exited e ∧ e ≠ .shutdown

/-- The calls that begin with a test of `errcode`, with the call they are. -/
def errcodeTested : AppLabel → Option Api
  | .connectTo _ _ destid => some (.connectTo (ide2i destid))
  | .subscribeTo _ _ _ => some .subscribeTo
  | .publish group data => some (.publish group data)
  | .send cid data => some (.send cid data)
  | .recv => some .recv
  | .recvAsync => some .recvAsync
  | .getOneConnection => some .getOneConnection
  | _ => none

/-- **A dead comm thread is reported**: `errcode` is set, a failed startup does not leave the
constructor returned, and every later call that tests `errcode` returns -1. -/
structure ReportsDeath (s : CommHandler τ) : Prop where
  errcode : s.CommDead → s.errcode ≠ 0
  ctor : ∀ st, s.pc = .exited (.startup st) → s.ctor ≠ .returned
  calls : s.CommDead → ∀ t l api, s.app t = .idle → errcodeTested l = some api →
    s.appStep t l = some (s.ret t api (-1))

/-- A startup call fails on a path that does not set `errcode`. -/
def SilentFailure (s : CommHandler τ) (l : Label τ) : Prop :=
  ∃ st, s.pc = .startup st ∧ st ≠ .socketMonitor ∧ l = .comm (.startup false)

/-- A call that tests `errcode` returns -1 when it is set. -/
theorem appStep_of_errcode {s : CommHandler τ} (herr : s.errcode ≠ 0) {t : τ} {l : AppLabel}
    {api : Api} (hidle : s.app t = .idle) (hl : errcodeTested l = some api) :
    s.appStep t l = some (s.ret t api (-1)) := by
  cases l <;> simp only [errcodeTested, Option.some.injEq, reduceCtorEq] at hl <;> subst hl <;>
    simp [appStep, hidle, herr]

/-! ## Frames: who writes `errcode`, `pc` and `ctor` -/

/-- An application step leaves the comm thread, `errcode` and the constructor alone. -/
theorem appStep_frame {s s' : CommHandler τ} {t : τ} {l : AppLabel} (h : s.appStep t l = some s') :
    s'.pc = s.pc ∧ s'.errcode = s.errcode ∧ s'.ctor = s.ctor :=
  ⟨(appFrame_of_appStep h).pc, (appFrame_of_appStep h).errcode, (appFrame_of_appStep h).ctor⟩

/-- The network leaves them alone too. -/
theorem envStep_frame (s : CommHandler τ) (l : EnvLabel τ) :
    (s.envStep l).pc = s.pc ∧ (s.envStep l).errcode = s.errcode ∧
      (s.envStep l).ctor = s.ctor := by
  cases l <;> exact ⟨rfl, rfl, rfl⟩

/-- The comm thread does not touch the constructor. -/
theorem commStep_ctor {hwm : Nat} {s s' : CommHandler τ} {l : CommLabel τ}
    (h : s.commStep hwm l = some s') : s'.ctor = s.ctor := by
  cases commTrans_of_commStep h <;> rfl

/-! ## The states of the startup -/

/-- Until the loop starts nothing has failed, and the constructor waits for `sync_mtx`, which it
holds itself. -/
def StartupWaits (s : CommHandler τ) : Prop :=
  ∀ st, s.pc = .startup st → s.errcode = 0 ∧ s.ctor = .waiting ∧ s.mtx = some .ctor

theorem startupWaits_init (id : Cliid) (acceptConns : Bool) :
    (init τ id acceptConns).StartupWaits := fun _ _ => ⟨rfl, rfl, rfl⟩

theorem startupWaits_step {hwm : Nat} (s : CommHandler τ) (l : Label τ) (s' : CommHandler τ)
    (hs : s.StartupWaits) (h : s.step hwm l = some s') : s'.StartupWaits := by
  intro st' hpc'
  cases l with
  | comm l =>
      -- a step into the startup comes from the startup, and a successful call changes `pc` only
      cases commTrans_of_commStep h with
      | startupNext hpc => exact hs _ hpc
      | helloRetry hpc => rw [hpc] at hpc'; cases hpc'
      | _ => simp [unlock, failed] at hpc'
  | app t l =>
      obtain ⟨hret, h⟩ := step_app_eq_some h
      rw [(appStep_frame h).1] at hpc'
      rw [(hs st' hpc').2.1] at hret
      cases hret
  | ctor l =>
      rcases ctorStep_eq_some h with ⟨_, hm, rfl⟩ | ⟨hc, rfl⟩
      · rw [(hs st' hpc').2.2] at hm
        cases hm
      · rw [(hs st' hpc').2.1] at hc
        cases hc
  | env l =>
      cases h
      cases l <;> exact hs st' hpc'

/-! ## What the loud paths preserve -/

/-- The part of `ReportsDeath` that steps preserve. -/
structure Loud (s : CommHandler τ) : Prop where
  waits : s.StartupWaits
  errcode : s.CommDead → s.errcode ≠ 0
  ctor : ∀ st, s.pc = .exited (.startup st) → s.ctor ≠ .returned

theorem Loud.reportsDeath {s : CommHandler τ} (hs : s.Loud) : s.ReportsDeath where
  errcode := hs.errcode
  ctor := hs.ctor
  calls hdead _ _ _ hidle hl := appStep_of_errcode (hs.errcode hdead) hidle hl

/-- Every exit of the comm thread other than a silent failure or a shutdown sets `errcode`. -/
theorem commStep_loud {hwm : Nat} {s s' : CommHandler τ} {l : CommLabel τ}
    (hok : ¬ s.SilentFailure (.comm l)) (h : s.commStep hwm l = some s') :
    s'.CommDead → s'.errcode ≠ 0 := by
  rintro ⟨e, he, hne⟩
  cases commTrans_of_commStep h with
  | startupSilent hpc hst => exact absurd ⟨_, hpc, hst, rfl⟩ hok
  | helloRetry hpc => rw [hpc] at he; cases he
  | shutdown hpc =>
      simp only [CommPc.exited.injEq] at he
      exact absurd he.symm hne
  | startupFail | pollFail | recvFail | recvFailConn | monitorFail | connFail | pubSendFail | subConnFail
  | subSetFail | pubStartFail => exact one_ne_zero
  | _ => simp [unlock] at he

/-- A step that leaves the comm thread, `errcode` and the constructor alone stays loud. -/
theorem Loud.of_frame {s s' : CommHandler τ} (hs : s.Loud) (hw : s'.StartupWaits)
    (h1 : s'.pc = s.pc) (h2 : s'.errcode = s.errcode) (h3 : s'.ctor = s.ctor) : s'.Loud where
  waits := hw
  errcode := by
    rintro ⟨e, he, hne⟩
    rw [h2]
    exact hs.errcode ⟨e, h1 ▸ he, hne⟩
  ctor := by
    intro st he
    rw [h3]
    exact hs.ctor st (h1 ▸ he)

theorem loud_step {hwm : Nat} (s : CommHandler τ) (l : Label τ) (s' : CommHandler τ)
    (hs : s.Loud) (hok : ¬ s.SilentFailure l) (h : s.step hwm l = some s') : s'.Loud := by
  have hwaits := startupWaits_step s l s' hs.waits h
  cases l with
  | comm l =>
      refine ⟨hwaits, commStep_loud hok h, ?_⟩
      intro st he
      rw [commStep_ctor h]
      -- the exit comes straight from the startup, where the constructor waits
      cases commTrans_of_commStep h with
      | startupFail hpc | startupSilent hpc =>
          rw [(hs.waits _ hpc).2.1]
          decide
      | helloRetry hpc => rw [hpc] at he; cases he
      | _ => simp [unlock, failed] at he
  | app t l =>
      obtain ⟨h1, h2, h3⟩ := appStep_frame (step_app_eq_some h).2
      exact hs.of_frame hwaits h1 h2 h3
  | ctor l =>
      rcases ctorStep_eq_some h with ⟨_, _, rfl⟩ | ⟨_, rfl⟩
      · exact ⟨hwaits, hs.errcode, fun _ _ => by simp⟩
      · refine ⟨hwaits, hs.errcode, ?_⟩
        intro st he
        have herr : s.errcode ≠ 0 := hs.errcode ⟨_, he, by simp⟩
        simp only [if_pos herr]
        decide
  | env l =>
      cases h
      obtain ⟨h1, h2, h3⟩ := envStep_frame s l
      exact hs.of_frame hwaits h1 h2 h3

/-! ## The trap of a silent failure -/

/-- The comm thread is gone and nothing says so. -/
def SilentlyDead (s : CommHandler τ) : Prop := (∃ st, s.pc = .exited (.startup st)) ∧ s.errcode = 0

theorem silentlyDead_of_silentFailure {hwm : Nat} (s : CommHandler τ) (l : Label τ)
    (s' : CommHandler τ) (hs : s.StartupWaits) (h : s.step hwm l = some s')
    (hbad : ¬ ¬ s.SilentFailure l) : s'.SilentlyDead := by
  obtain ⟨st, hpc, hne, rfl⟩ := not_not.mp hbad
  have herr := (hs st hpc).1
  simp only [step, commStep, hpc, Option.some.injEq] at h
  subst h
  cases st with
  | socketMonitor => exact absurd rfl hne
  | setsockopt | monitorConnect | bind => exact ⟨⟨_, rfl⟩, herr⟩

theorem silentlyDead_step {hwm : Nat} (s : CommHandler τ) (l : Label τ) (s' : CommHandler τ)
    (hs : s.SilentlyDead) (h : s.step hwm l = some s') : s'.SilentlyDead := by
  obtain ⟨⟨st, hpc⟩, herr⟩ := hs
  cases l with
  | comm l => simp [step, commStep, hpc] at h
  | app t l =>
      obtain ⟨h1, h2, -⟩ := appStep_frame (step_app_eq_some h).2
      exact ⟨⟨st, h1 ▸ hpc⟩, h2 ▸ herr⟩
  | ctor l =>
      rcases ctorStep_eq_some h with ⟨_, _, rfl⟩ | ⟨_, rfl⟩ <;> exact ⟨⟨st, hpc⟩, herr⟩
  | env l =>
      cases h
      obtain ⟨h1, h2, -⟩ := envStep_frame s l
      exact ⟨⟨st, h1 ▸ hpc⟩, h2 ▸ herr⟩

/-- **Exactly the runs without a silent startup failure report a dead comm thread.** The run may
have any length, any number of application threads and any outcome of the socket calls. -/
theorem reportsDeath_iff_no_silentFailure (hwm : Nat) (id : Cliid) (acceptConns : Bool)
    (ls : List (Label τ)) (s : CommHandler τ)
    (hrun : exec (step hwm) (init τ id acceptConns) ls = some s) :
    s.ReportsDeath ↔
      Meets (step hwm) (fun s l => ¬ s.SilentFailure l) (init τ id acceptConns) ls := by
  have hw := startupWaits_init (τ := τ) id acceptConns
  constructor
  · intro hrep
    refine meets_of_trap startupWaits_step silentlyDead_of_silentFailure silentlyDead_step hw hrun ?_
    rintro ⟨⟨st, hpc⟩, herr⟩
    exact hrep.errcode ⟨_, hpc, by simp⟩ herr
  · intro hok
    have hinit : (init τ id acceptConns).Loud := by
      refine ⟨hw, ?_, ?_⟩
      · rintro ⟨e, he, -⟩
        cases he
      · intro st he
        cases he
    have hloud : s.Loud := exec_invariant_of_meets loud_step hinit hok hrun
    exact hloud.reportsDeath

/-- A failing `zmq_socket_monitor` is reported: the run meets the condition, so the theorem applies.
-/
theorem reportsDeath_socketMonitor :
    ∃ s, exec (step 1) (init Unit 1 false)
        [.comm (.startup true), .comm (.startup false), .ctor .relock, .ctor .unlock] = some s ∧
      s.pc = .exited (.startup .socketMonitor) ∧ s.ctor = .threw ∧ s.ReportsDeath := by
  obtain ⟨s, hrun, hs⟩ := exists_exec (step 1) (init Unit 1 false)
    [.comm (.startup true), .comm (.startup false), .ctor .relock, .ctor .unlock]
    (fun s => s.pc = .exited (.startup .socketMonitor) ∧ s.ctor = .threw) (by decide)
  simp only [decide_eq_true_eq] at hs
  refine ⟨s, hrun, hs.1, hs.2, (reportsDeath_iff_no_silentFailure 1 1 false _ s hrun).mpr ?_⟩
  refine ⟨?_, ?_, ?_, ?_, trivial⟩ <;> rintro ⟨st, hpc, hne, hl⟩
  · cases hl
  · cases hpc
    exact hne rfl
  · cases hl
  · cases hl

/-- The first `setsockopt` throws: the comm thread is gone, yet the constructor returns and a later
`send` of one byte reports one byte sent. -/
theorem not_reportsDeath_setsockopt :
    ∃ s, exec (step 1) (init Unit 1 false)
        [.comm (.startup false), .ctor .relock, .ctor .unlock, .app () (.send 2 [104]),
        .app () .test] = some s ∧
      s.pc = .exited (.startup .setsockopt) ∧ s.errcode = 0 ∧ s.ctor = .returned ∧
      s.rets = [((), .send 2 [104], 1)] ∧ ¬ s.ReportsDeath := by
  obtain ⟨s, hrun, hs⟩ := exists_exec (step 1) (init Unit 1 false)
    [.comm (.startup false), .ctor .relock, .ctor .unlock, .app () (.send 2 [104]),
        .app () .test]
    (fun s => s.pc = .exited (.startup .setsockopt) ∧ s.errcode = 0 ∧ s.ctor = .returned ∧
      s.rets = [((), .send 2 [104], 1)]) (by decide)
  simp only [decide_eq_true_eq] at hs
  obtain ⟨hpc, herr, hctor, hrets⟩ := hs
  refine ⟨s, hrun, hpc, herr, hctor, hrets, ?_⟩
  intro hrep
  exact hrep.errcode ⟨_, hpc, by simp⟩ herr

end CommHandler

end CommTest.Zmq
