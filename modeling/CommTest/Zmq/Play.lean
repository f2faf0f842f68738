import CommTest.Zmq.Hello
import CommTest.Zmq.Script

/-!
# Networks in which every thread plays its script

What a program can rely on when the other nodes are programs too. The scripts are `Civil`: they use
the plain calls, send no `sub_hello` and nothing that is cut short, and two nodes connect to each
other once at most; that is what the library needs to keep its handshakes and the payloads apart.

* `Playing` is the invariant of these runs, as long as no message is lost: the conduct of every
  thread, with what `Acquainted` and `HelloInv` say of the network.
* `Civil.noLoss`, `Playing.firstConnect`: such a run meets the conditions of the unicast and of the
  handshake results.
* `Playing.received_from`: what `recv` gives out was sent by the script of the node it is from.
-/

set_option linter.unusedSectionVars false

namespace CommTest.Zmq

open FairQueue Lts

variable {N : Type} [DecidableEq N]

/-! ## Runs of scripts -/

/-- The script asks for a connection to `dest` somewhere. -/
def ConnectsTo (script : Script N) (dest : Cliid) : Prop :=
  ∃ h r ip port, script h r = some (.connectTo ip port dest)

/-- Scripts that use the plain calls, send plain payloads, ask for one connection each at most, and
not for one to a node that asks for theirs. -/
structure Civil (ext : N → Cliid) (script : N → Script N) : Prop where
  plain : ∀ n h r l, script n h r = some l → l.Plain
  payload : ∀ n h r cid data, script n h r = some (.send cid data) → Zmq.Plain data
  once : ∀ n h r ip port dest h' r' ip' port' dest',
    script n h r = some (.connectTo ip port dest) →
    script n h' r' = some (.connectTo ip' port' dest') → h.length = h'.length
  oneWay : ∀ a b d d', ConnectsTo (script a) d → ConnectsTo (script b) d' → ide2i d = nodeKey ext b →
    ide2i d' ≠ nodeKey ext a

/-- No message is lost in a failing send to a ROUTER or PUSH socket. -/
def Lossless : NetLabel N N → Prop
  | .comm _ (.msgq _ sent) => sent = true
  | .comm _ (.push dst) => dst.isSome = true
  | _ => True

instance : ∀ l : NetLabel N N, Decidable (Lossless l)
  | .comm _ (.msgq _ sent) => inferInstanceAs (Decidable (sent = true))
  | .comm _ (.push dst) => inferInstanceAs (Decidable (dst.isSome = true))
  | .comm _ (.startup _) | .comm _ (.poll _) | .comm _ (.router _) | .comm _ .monitor
  | .comm _ (.conn _ _ _) | .comm _ (.pubSend _ _) | .comm _ (.sub _ _ _ _)
  | .comm _ (.subSock _ _ _) | .comm _ (.pubStart _ _ _) | .comm _ .shutdown | .comm _ .recvFail
  | .comm _ (.hello _) | .app _ _ | .ctor _ _ | .monitor _ _ | .linkUp _ _ | .transfer _ _
  | .multicast _ _ _ _ => isTrue trivial

deriving instance DecidableEq for AppLabel

instance (script : N → Script N) (w : N → CommHandler N) : ∀ l, Decidable (Plays script w l)
  | .app n l =>
      inferInstanceAs (Decidable ((w n).app n = .idle → script n (w n).rets (w n).received = some l))
  | .comm _ _ | .ctor _ _ | .monitor _ _ | .linkUp _ _ | .transfer _ _ | .multicast _ _ _ _ =>
      isTrue trivial

section

variable {script : N → Script N} {ext : N → Cliid} {ls : List (NetLabel N N)} {hwm : Nat}
  {w w' : N → CommHandler N}

/-- **What holds in the runs in which every thread plays its script.** -/
structure Playing (script : N → Script N) (ext : N → Cliid) (ls : List (NetLabel N N))
    (w : N → CommHandler N) : Prop where
  acquainted : Acquainted ext id w
  hello : HelloInv ext id ls w
  conduct : ∀ n, (w n).Conduct (script n) n
  unpublished : ∀ n, (w n).Unpublished

theorem playing_init (acceptConns : N → Bool) : Playing script ext ls (netInit N ext acceptConns) where
  acquainted := acquainted_init acceptConns
  hello := helloInv_init acceptConns
  conduct n := CommHandler.conduct_init _ _
  unpublished n e he := by cases he

/-- A thread that makes a `send` is outside the library. -/
theorem idle_of_send {s s' : CommHandler N} {t : N} {cid : Cliid} {data : Bytes}
    (h : s.appStep t (.send cid data) = some s') : s.app t = .idle := by
  cases CommHandler.appTrans_of_appStep h with
  | reject hpc | call hpc | announceStart hpc | send hpc => exact hpc

/-- The payloads of such a run are no `sub_hello`. -/
theorem Civil.noLoss (hciv : Civil ext script) {l : NetLabel N N} (hplays : Plays script w l)
    (hok : Lossless l) (h : netStep ext id hwm w l = some w') : NoLoss l := by
  cases netTrans_of_netStep h with
  | comm hs =>
      rename_i n l s
      cases l with
      | msgq | push => exact hok
      | _ => trivial
  | app hs =>
      rename_i t l s
      cases l with
      | send cid data => exact (hciv.payload t _ _ cid data (hplays (idle_of_send hs))).1
      | _ => trivial
  | _ => trivial

/-- The connects of such a run are the first ones between their nodes. -/
theorem Playing.firstConnect (hciv : Civil ext script) (hw : Playing script ext ls w)
    (l : NetLabel N N) : FirstConnect ext w l := by
  cases l with
  | comm n l =>
      intro dest hdest
      obtain ⟨t, behind, rfl⟩ : ∃ t behind, l = .conn t behind true := by
        unfold CommHandler.connectsTo at hdest
        split at hdest
        · exact ⟨_, _, rfl⟩
        · cases hdest
      obtain ⟨⟨⟨d, text⟩, q⟩, hpop, rfl⟩ := Option.map_eq_some_iff.mp hdest
      have hmem : d ∈ (w n).connSock.map fun e => e.2.1 := List.mem_map_of_mem (mem_of_pop hpop)
      obtain ⟨ip, port, d', ⟨h, r, -, -, hcall⟩, hd⟩ :=
        (hw.conduct n).connected d (List.mem_append_left _ hmem)
      refine ⟨?_, ?_⟩
      · have hone := (hw.conduct n).connects_once (hciv.once n)
        have hlen := (pop_perm hpop).length_eq
        rw [List.length_cons] at hlen
        have hnil : (w n).routerConns = [] := List.length_eq_zero_iff.mp (by omega)
        simp [hnil]
      · intro b hb hasked
        obtain ⟨ip', port', d'', ⟨h', r', -, -, hcall'⟩, hd''⟩ :=
          (hw.conduct b).connected _ (List.mem_append_right _ hasked)
        exact hciv.oneWay n b d' d'' ⟨h, r, ip, port, hcall⟩ ⟨h', r', ip', port', hcall'⟩
          (hd.symm.trans hb.symm) hd''.symm
  | _ => trivial

/-- The steps of the network keep the conduct of every node. -/
theorem conduct_netStep (hciv : Civil ext script) (hw : Playing script ext ls w) {l : NetLabel N N}
    (hplays : Plays script w l) (h : netStep ext id hwm w l = some w') :
    ∀ n, (w' n).Conduct (script n) n := by
  have hsame : ∀ n, ∀ s : CommHandler N, CommHandler.Keeps (w n) s → s.app = (w n).app →
      s.rets = (w n).rets → s.clientLog = (w n).clientLog → s.errcode = (w n).errcode →
      s.acceptConns = (w n).acceptConns → s.Conduct (script n) n :=
    fun n s => (hw.conduct n).congr
  cases netTrans_of_netStep h with
  | comm hs =>
      apply forall_update (P := fun n s => s.Conduct (script n) n) hw.conduct
      exact CommHandler.conduct_commStep (hw.conduct _) hs
  | app hs =>
      apply forall_update (P := fun n s => s.Conduct (script n) n) hw.conduct
      exact CommHandler.conduct_appStep (hciv.plain _) (hw.conduct _) (hw.acquainted.desk _) hplays hs
  | ctor | monitor =>
      apply forall_update (P := fun n s => s.Conduct (script n) n) hw.conduct
      exact hsame _ _ ⟨rfl, rfl, rfl, rfl, rfl, rfl, rfl⟩ rfl rfl rfl rfl rfl
  | linkUp | transfer =>
      apply forall_update (P := fun n s => s.Conduct (script n) n)
      · apply forall_update (P := fun n s => s.Conduct (script n) n) hw.conduct
        exact hsame _ _ ⟨rfl, rfl, rfl, rfl, rfl, rfl, rfl⟩ rfl rfl rfl rfl rfl
      · exact hsame _ _ ⟨rfl, rfl, rfl, rfl, rfl, rfl, rfl⟩ rfl rfl rfl rfl rfl
  | multicast hpub hsub =>
      rw [(hw.conduct _).quiet.2.1] at hpub
      cases hpub

/-- What arrives at the ROUTER socket of a node was not published. -/
theorem Playing.inbox (hw : Playing script ext ls w) {n : N} :
    ∀ e ∈ (w n).routerIn, ∀ t, e.2.origin ≠ .publish t := by
  intro e he t ho
  rcases (hw.acquainted.inv.wired.inbox n e he).source with hcomm | ⟨u, hsend, -⟩
  · rw [hcomm] at ho
    cases ho
  · rw [hsend] at ho
    cases ho

theorem unpublished_netStep (hw : Playing script ext ls w) {l : NetLabel N N}
    (h : netStep ext id hwm w l = some w') : ∀ n, (w' n).Unpublished := by
  cases netTrans_of_netStep h with
  | comm hs =>
      apply forall_update (P := fun _ => CommHandler.Unpublished) hw.unpublished
      exact CommHandler.unpublished_commStep (hw.unpublished _) (hw.conduct _).quiet hw.inbox hs
  | app hs =>
      apply forall_update (P := fun _ => CommHandler.Unpublished) hw.unpublished
      exact CommHandler.unpublished_appStep (hw.unpublished _) hs
  | ctor | monitor | multicast =>
      apply forall_update (P := fun _ => CommHandler.Unpublished) hw.unpublished
      exact hw.unpublished _
  | linkUp | transfer =>
      exact forall_update₂ hw.unpublished _ _ (hw.unpublished _) (hw.unpublished _)

/-- **Every step in which the threads play their scripts and no message is lost keeps the
invariant.** -/
theorem playing_step (hinj : Function.Injective ext) (hext : ∀ n, ExtId (ext n))
    (hciv : Civil ext script) (hw : Playing script ext ls w) {l : NetLabel N N} (hl : l ∈ ls)
    (hplays : Plays script w l) (hok : Lossless l) (h : netStep ext id hwm w l = some w') :
    Playing script ext ls w' where
  acquainted := acquainted_step hinj hext hw.acquainted (hciv.noLoss hplays hok h) h
  hello := helloInv_step (nodeKey_injective hinj hext) hw.hello hl (hw.firstConnect hciv l) h
  conduct := conduct_netStep hciv hw hplays h
  unpublished := unpublished_netStep hw h

theorem playing_exec (hinj : Function.Injective ext) (hext : ∀ n, ExtId (ext n))
    (hciv : Civil ext script) {acceptConns : N → Bool} (hok : ∀ l ∈ ls, Lossless l)
    (hplays : Meets (netStep ext id hwm) (Plays script) (netInit N ext acceptConns) ls)
    (hrun : exec (netStep ext id hwm) (netInit N ext acceptConns) ls = some w) :
    Playing script ext ls w := by
  have hmem : Meets (netStep ext id hwm) (fun _ l => l ∈ ls) (netInit N ext acceptConns) ls :=
    meets_of_forall_mem fun l hl _ => hl
  refine exec_invariant_of_meets ?_ (playing_init acceptConns) (hplays.and hmem) hrun
  intro v l v' hv hl h
  exact playing_step hinj hext hciv hv hl.2 hl.1 (hok l hl.2) h

/-! ## What is received -/

/-- The payloads that have been sent are plain when those of the scripts are. -/
theorem Playing.plainSends (hw : Playing script ext ls w)
    (hplain : ∀ n h r cid data, script n h r = some (.send cid data) → Plain data) : PlainSends w := by
  intro n e he
  obtain ⟨cid, data, ⟨h, r, -, -, hcall⟩, rfl⟩ := (hw.conduct n).sent e he
  exact hplain n h r cid data hcall

/-- **An item given out was called for**: the script of the node it is from has called for a `send`
of it to this node. -/
theorem Playing.received_from (hext : ∀ n, ExtId (ext n)) (hw : Playing script ext ls w)
    (hplain : PlainSends w) {b : N} {e : Nat × N × Cliid × Bytes} (he : e ∈ (w b).received) :
    ∃ a cid c m, (w b).taskLog[e.1]? = some (c, m) ∧ m.origin = .send a ∧ e.2.2.1 = ext a ∧
      (w a).Called (script a) (.send cid e.2.2.2) ∧ ide2i cid = nodeKey ext b := by
  obtain ⟨c, m, hget, hdata, hx⟩ := (hw.hello.receipts b).given e he
  have hlog : (c, m) ∈ (w b).taskLog := List.mem_of_getElem? hget
  have hmem : (c, m) ∈ (w b).taskLog ++ (w b).heldTask := List.mem_append_left _ hlog
  obtain ⟨a, ho⟩ : ∃ a, m.origin = .send a := by
    cases ho : m.origin with
    | comm => exact absurd ho (hw.hello.tasks b _ hmem)
    | publish t => exact absurd ho (hw.unpublished b _ hmem t)
    | send a => exact ⟨a, rfl⟩
  have hc : c = ide2i (ext a) := hw.acquainted.inv.tagged hlog ho
  have hsent : e.2.2.2 ∈ payloadsFor (nodeKey ext b) (pipe a (w a).sendLog) := by
    apply (hw.acquainted.inv.wired.delivered a b (hplain.payloads id a _)).subset
    exact List.mem_filterMap.mpr ⟨m, List.mem_map_of_mem hmem, by rw [if_pos ho, hdata]⟩
  obtain ⟨m', hm', hdata'⟩ := List.mem_map.mp hsent
  obtain ⟨cid, data, hcalled, heq⟩ := (hw.conduct a).sent _ (mem_pipe.mp (mem_pipe.mp hm'))
  simp only [Prod.mk.injEq, true_and] at heq
  obtain ⟨hcid, rfl⟩ := heq
  refine ⟨a, cid, c, m, hget, ho, ?_, hdata' ▸ hcalled, hcid.symm⟩
  rcases hx with hx | hx
  · rw [hx, hc, recvCid_ide2i (hext a)]
  · rw [hx, hc, idi2e_ide2i (hext a)]

/-- **A node that sends one message to another one is received from once there.** -/
theorem Playing.received_once (hinj : Function.Injective ext) (hext : ∀ n, ExtId (ext n))
    (hw : Playing script ext ls w) (hplain : PlainSends w) {a b : N}
    (hone : (w a).sendLog.countP (fun e => e.2.1 = nodeKey ext b) ≤ 1)
    {e e' : Nat × N × Cliid × Bytes} (he : e ∈ (w b).received) (he' : e' ∈ (w b).received)
    (hx : e.2.2.1 = ext a) (hx' : e'.2.2.1 = ext a) : e.1 = e'.1 := by
  have hfrom : ∀ {e : Nat × N × Cliid × Bytes}, e ∈ (w b).received → e.2.2.1 = ext a →
      ∃ x, (w b).taskLog[e.1]? = some x ∧ decide (x.2.origin = .send a) = true := by
    intro e he hx
    obtain ⟨a', -, c, m, hget, ho, hx', -, -⟩ := hw.received_from hext hplain he
    obtain rfl := hinj (hx.symm.trans hx')
    exact ⟨(c, m), hget, decide_eq_true ho⟩
  have hcount : (w b).taskLog.countP (fun x => decide (x.2.origin = .send a)) ≤ 1 := by
    have hdelivered := (hw.acquainted.inv.wired.delivered a b (hplain.payloads id a _)).length_le
    have hpipe : (payloadsFor (nodeKey ext b) (pipe a (w a).sendLog)).length ≤ 1 := by
      refine le_trans ?_ hone
      rw [payloadsFor, List.length_map, pipe, List.length_filterMap_eq_countP, pipe,
        List.countP_filterMap]
      apply List.countP_mono_left
      intro x _
      by_cases ha : x.1 = a <;> by_cases hd : x.2.1 = nodeKey ext b <;> simp [ha, hd]
    have hsends : (w b).taskLog.countP (fun x => decide (x.2.origin = .send a)) ≤
        (sendsOf a (((w b).port.tasks).map Prod.snd)).length := by
      show _ ≤ (sendsOf a (((w b).taskLog ++ (w b).heldTask).map Prod.snd)).length
      rw [List.map_append, sendsOf_append, List.length_append, sendsOf,
        List.length_filterMap_eq_countP, List.countP_map]
      apply Nat.le_add_right_of_le
      apply List.countP_mono_left
      intro x _ ho
      have ho : x.2.origin = .send a := of_decide_eq_true ho
      simp [ho]
    exact hsends.trans (hdelivered.trans hpipe)
  obtain ⟨x, hget, ho⟩ := hfrom he hx
  obtain ⟨y, hget', ho'⟩ := hfrom he' hx'
  exact Count.index_eq_of_countP hcount hget ho hget' ho'

end

end CommTest.Zmq
