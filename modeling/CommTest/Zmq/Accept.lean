import CommTest.Zmq.Network

/-!
# Who `get_one_connection` hands out

A comm thread takes the first message of a peer it does not know for that peer's hello and puts the
peer on `clientq`; `get_one_connection` hands it to the application. Nothing in the message says
that it is a hello, so that the clients of a node are those who asked for a connection to it is a
property of the whole network.

* `Desk` is the bookkeeping of one node: what was handed out and what is still in `clientq` is what
  was accepted, in order; and it knows nobody but those it has asked for or accepted.
* `Hailed` is the invariant of the wires: whoever is being greeted, or has a hello under way, was
  asked for by the sender.
* `Clients` says that the accepted clients of a node are distinct nodes that it knows and that asked
  for it; a new one comes in with a hello, as `Wired.pair` tells.
* `connection_agreement` puts them together.
-/

set_option linter.unusedSectionVars false

namespace CommTest.Zmq

open FairQueue Lts

variable {N τ : Type} [DecidableEq N] [DecidableEq τ]

/-! ## The property -/

/-- The clients handed out by `get_one_connection`, in the order of the returns. A call that returns
-1 has handed out nobody. -/
def handedOut (rets : List (τ × Api × Int)) : List Int :=
  rets.filterMap fun e => if e.2.1 = .getOneConnection ∧ e.2.2 ≠ -1 then some e.2.2 else none

/-- The nodes that `a` has asked for a connection to, by their identities. -/
def CommHandler.asked (s : CommHandler τ) : List Cliid := s.routerConns.map Prod.fst

/-- **Connections are agreed on.** At every node `b`: the clients handed out are the accepted ones in
the order in which they came, none twice; each of them is another node that has asked for a
connection to `b`; and a node of which nothing is under way any more, and which `b` has not asked for
itself, is a client of `b` exactly if it has asked. -/
structure ConnectionAgreement (ext : N → Cliid) (w : N → CommHandler τ) : Prop where
  order : ∀ b, handedOut (w b).rets ++ (w b).clientq.map Int32.toInt =
    (w b).clientLog.map Int32.toInt
  once : ∀ b, (w b).clientLog.Nodup
  asked : ∀ b x, x ∈ (w b).clientLog → ∃ a, a ≠ b ∧ ext a = x ∧ nodeKey ext b ∈ (w a).asked
  agreed : ∀ a b, a ≠ b → nodeKey ext a ∉ (w b).asked → (w a).greeting ≠ some (nodeKey ext b) →
    stream (nodeKey ext) (fun n => (w n).port) a b = [] →
    (ext a ∈ (w b).clientLog ↔ nodeKey ext b ∈ (w a).asked)

/-! ## One node -/

theorem handedOut_append (l r : List (τ × Api × Int)) :
    handedOut (l ++ r) = handedOut l ++ handedOut r := by
  simp [handedOut]

theorem handedOut_of_ne {t : τ} {api : Api} {v : Int} (h : api ≠ .getOneConnection ∨ v = -1) :
    handedOut [(t, api, v)] = [] := by
  rcases h with h | h <;> simp [handedOut, h]

theorem handedOut_pop (t : τ) (v : Int) :
    handedOut [(t, .getOneConnection, v)] = [v].filter (· ≠ -1) := by
  by_cases hv : v = -1 <;> simp [handedOut, hv]

namespace CommHandler

/-- The bookkeeping of `clientq` at one node. An id of -1, which no client has, would be handed out
unseen. -/
structure Desk (s : CommHandler τ) : Prop where
  order : ∃ taken, s.clientLog = taken ++ s.clientq ∧
    handedOut s.rets = (taken.map Int32.toInt).filter (· ≠ -1)
  known : ∀ c, s.clientmap c = some true → c ∈ s.asked ∨ idi2e c ∈ s.clientLog
  testing : ∀ t v, s.app t ≠ .testing .getOneConnection v

theorem desk_init (id : Cliid) (acceptConns : Bool) : (init τ id acceptConns).Desk where
  order := ⟨[], rfl, rfl⟩
  known c hc := by cases hc
  testing t v h := by cases h

theorem desk_congr {s s' : CommHandler τ} (hs : s.Desk) (h1 : s'.rets = s.rets)
    (h2 : s'.clientq = s.clientq) (h3 : s'.clientLog = s.clientLog)
    (h4 : s'.clientmap = s.clientmap) (h5 : s'.routerConns = s.routerConns)
    (h6 : s'.app = s.app) : s'.Desk := by
  refine ⟨?_, ?_, ?_⟩
  · rw [h1, h2, h3]
    exact hs.order
  · intro c
    rw [asked, h3, h4, h5]
    exact hs.known c
  · rw [h6]
    exact hs.testing

/-- A thread goes on within a call. -/
theorem desk_goto {s s' : CommHandler τ} {t : τ} {pc : AppPc} (hs : s.Desk)
    (hpc : ∀ v, pc ≠ .testing .getOneConnection v) (h1 : s'.app = Function.update s.app t pc)
    (h2 : s'.rets = s.rets) (h3 : s'.clientq = s.clientq) (h4 : s'.clientLog = s.clientLog)
    (h5 : s'.clientmap = s.clientmap) (h6 : s'.routerConns = s.routerConns) : s'.Desk := by
  refine ⟨?_, ?_, ?_⟩
  · rw [h2, h3, h4]
    exact hs.order
  · intro c
    rw [asked, h4, h5, h6]
    exact hs.known c
  · intro u v
    rw [h1]
    by_cases hu : u = t
    · subst hu
      rw [Function.update_self]
      exact hpc v
    · rw [Function.update_of_ne hu]
      exact hs.testing u v

/-- A thread returns from a call that hands out nobody. -/
theorem desk_ret {s s' : CommHandler τ} {t : τ} {api : Api} {v : Int} (hs : s.Desk)
    (hapi : api ≠ .getOneConnection ∨ v = -1) (h1 : s'.app = Function.update s.app t .idle)
    (h2 : s'.rets = s.rets ++ [(t, api, v)]) (h3 : s'.clientq = s.clientq)
    (h4 : s'.clientLog = s.clientLog) (h5 : s'.clientmap = s.clientmap)
    (h6 : s'.routerConns = s.routerConns) : s'.Desk := by
  have hgone : ({ s' with rets := s.rets } : CommHandler τ).Desk :=
    desk_goto hs (by simp) h1 rfl h3 h4 h5 h6
  refine ⟨?_, hgone.known, hgone.testing⟩
  rw [h2, handedOut_append, handedOut_of_ne hapi, List.append_nil]
  exact hgone.order

theorem api_ne_getOneConnection (r : Request) : r.api ≠ .getOneConnection := by
  cases r <;> simp [Request.api]

theorem desk_commStep {hwm : Nat} {s s' : CommHandler τ} {l : CommLabel τ} (hs : s.Desk)
    (h : s.commStep hwm l = some s') : s'.Desk := by
  cases commTrans_of_commStep h with
  | routerClient hpc hpop hd hmap hlen =>
      rename_i rest c m q
      refine ⟨?_, ?_, hs.testing⟩
      · obtain ⟨taken, hlog, hout⟩ := hs.order
        refine ⟨taken, ?_, hout⟩
        show s.clientLog ++ [idi2e c] = taken ++ (s.clientq ++ [idi2e c])
        rw [hlog, List.append_assoc]
      · intro x hx
        show x ∈ s.asked ∨ idi2e x ∈ s.clientLog ++ [idi2e c]
        by_cases hxc : x = c
        · exact .inr (by simp [hxc])
        · have hold : s.clientmap x = some true := (Function.update_of_ne hxc _ _).symm.trans hx
          exact (hs.known x hold).imp_right (List.mem_append_left _)
  | conn hpc hpop =>
      rename_i rest t behind dest text q
      refine ⟨hs.order, ?_, hs.testing⟩
      intro x hx
      show x ∈ (s.routerConns ++ [(dest, cstr text behind)]).map Prod.fst ∨ idi2e x ∈ s.clientLog
      rw [List.map_append]
      by_cases hxd : x = dest
      · exact .inl (by simp [hxd])
      · have hold : s.clientmap x = some true := (Function.update_of_ne hxd _ _).symm.trans hx
        exact (hs.known x hold).imp_left (List.mem_append_left _)
  | _ => exact desk_congr hs rfl rfl rfl rfl rfl rfl

theorem desk_appStep {s s' : CommHandler τ} {t : τ} {l : AppLabel} (hs : s.Desk)
    (h : s.appStep t l = some s') : s'.Desk := by
  obtain ⟨pullers, hattach⟩ := attachTask_eq s t
  cases appTrans_of_appStep h with
  | pop hpc hq =>
      rename_i c q
      have hgone : (s.goto t .idle).Desk := desk_goto hs (by simp) rfl rfl rfl rfl rfl rfl
      refine ⟨?_, hgone.known, hgone.testing⟩
      obtain ⟨taken, hlog, hout⟩ := hs.order
      refine ⟨taken ++ [c], ?_, ?_⟩
      · show s.clientLog = taken ++ [c] ++ q
        rw [hlog, hq, List.append_assoc, List.singleton_append]
      · show handedOut (s.rets ++ [(t, .getOneConnection, c.toInt)]) = _
        rw [handedOut_append, handedOut_pop, hout, List.map_append, List.filter_append]
        rfl
  | reject hpc => exact desk_ret hs (.inr rfl) rfl rfl rfl rfl rfl rfl
  | test hpc =>
      rename_i api v
      have hapi : api ≠ .getOneConnection := by
        rintro rfl
        exact hs.testing t v hpc
      exact desk_ret hs (.inl hapi) rfl rfl rfl rfl rfl rfl
  | sendReq hpc =>
      rename_i r
      cases r <;> exact desk_goto hs (by simp) rfl rfl rfl rfl rfl rfl
  | unlock hpc =>
      rename_i r
      cases r <;> exact desk_goto hs (by simp [Request.api]) rfl rfl rfl rfl rfl rfl
  | sendReqFail hpc =>
      exact desk_ret hs (.inl (api_ne_getOneConnection _)) rfl rfl rfl rfl rfl rfl
  | announcedFail hpc | announceEnd hpc | join hpc =>
      exact desk_ret hs (.inl (by simp)) rfl rfl rfl rfl rfl rfl
  | recvAsyncEmpty | recvAsyncNone =>
      rw [hattach]
      exact desk_ret hs (.inl (by simp)) rfl rfl rfl rfl rfl rfl
  | recv | recvAsync =>
      rw [hattach]
      exact desk_goto hs (by simp) rfl rfl rfl rfl rfl rfl
  | _ => exact desk_goto hs (by simp) rfl rfl rfl rfl rfl rfl

theorem port_known {s : CommHandler τ} {c : Cliid} :
    s.port.known c = true ↔ s.clientmap c = some true := by
  show (s.clientmap c).getD false = true ↔ _
  rcases hc : s.clientmap c with _ | _ | _ <;> simp

/-- What a step of the comm thread does to its clients: it forgets nobody; and it accepts one peer,
with the oldest message of that peer, or none. -/
theorem clients_commStep {hwm : Nat} {s s' : CommHandler τ} {l : CommLabel τ}
    (h : s.commStep hwm l = some s') :
    (∀ c, s.clientmap c = some true → s'.clientmap c = some true) ∧ s.asked ⊆ s'.asked ∧
    (s'.clientLog = s.clientLog ∨
      ∃ c m q, pop c s.routerIn = some (m, q) ∧ forwarded m.data ≠ commHandlerSubInit ∧
        s.clientmap c ≠ some true ∧ s'.clientmap c = some true ∧
        s'.clientLog = s.clientLog ++ [idi2e c]) := by
  have hmono : ∀ x c, s.clientmap c = some true →
      Function.update s.clientmap x (some true) c = some true := by
    intro x c hc
    by_cases hcx : c = x
    · subst hcx
      exact Function.update_self _ _ _
    · rw [Function.update_of_ne hcx, hc]
  cases commTrans_of_commStep h with
  | routerClient hpc hpop hd hmap hlen =>
      rename_i rest c m q
      refine ⟨hmono c, List.Subset.refl _, .inr ⟨c, m, q, hpop, hd, hmap, ?_, rfl⟩⟩
      exact Function.update_self _ _ _
  | conn hpc hpop =>
      refine ⟨hmono _, ?_, .inl rfl⟩
      show s.routerConns.map Prod.fst ⊆ (s.routerConns ++ _).map Prod.fst
      rw [List.map_append]
      exact List.subset_append_left _ _
  | _ => exact ⟨fun _ hc => hc, List.Subset.refl _, .inl rfl⟩

end CommHandler

/-! ## The wires -/

/-- A message of a comm thread that is not a `sub_hello`: a hello. -/
def Msg.Hails (m : Msg τ) : Prop := m.origin = .comm ∧ m.data ≠ commHandlerSubInit

/-- Who is being greeted was asked for, and a hello under way is from a node that has asked. -/
structure Hailed (key : N → Cliid) (p : N → Port τ) : Prop where
  greeting : ∀ n c, (p n).greeting = some c → c ∈ (p n).named
  out : ∀ n e, e ∈ (p n).out → e.2.Hails → e.1 ∈ (p n).named
  inbox : ∀ n e, e ∈ (p n).inbox →
    ∃ a, a ≠ n ∧ e.1 = key a ∧ (e.2.Hails → key n ∈ (p a).named)

section

variable {key : N → Cliid} {home : τ → N} {p p' : N → Port τ}

/-- What a step of a node does to the hellos at its port: it greets and says hello to nodes it has
asked for, and what is in its inbox was there before. -/
theorem PortStep.hails {n : N} {q r : Port τ} (h : PortStep home n q r)
    (hqueue : ∀ e, e ∈ q.queue → e.2.2.origin ≠ .comm) (hg : ∀ c, q.greeting = some c → c ∈ q.named)
    (hout : ∀ e, e ∈ q.out → e.2.Hails → e.1 ∈ q.named) :
    (∀ c, r.greeting = some c → c ∈ r.named) ∧
    (∀ e, e ∈ r.out → e.2.Hails → e.1 ∈ r.named) ∧ (∀ e, e ∈ r.inbox → e ∈ q.inbox) := by
  cases h with
  | forward hpop hpeer hgr =>
      refine ⟨hg, ?_, fun e he => he⟩
      apply forall_mem_concat hout
      intro hm
      exact absurd hm.1 (hqueue _ (mem_of_pop hpop))
  | suber hpop | client hpop | task hpop => exact ⟨hg, hout, fun e he => mem_of_mem_pop hpop he⟩
  | connect dest hgr =>
      refine ⟨?_, ?_, fun e he => he⟩
      · intro c hc
        cases hc
        exact List.mem_append_right _ List.mem_cons_self
      · intro e he hm
        exact List.mem_append_left _ (hout e he hm)
  | hello hgr =>
      refine ⟨?_, ?_, fun e he => he⟩
      · intro c hc
        cases hc
      · apply forall_mem_concat hout
        intro _
        exact hg _ hgr
  | reply dest =>
      refine ⟨hg, ?_, fun e he => he⟩
      apply forall_mem_concat hout
      intro hm
      exact absurd rfl hm.2
  | _ => exact ⟨hg, hout, fun e he => he⟩

/-- Steps of the nodes keep the hellos in order. -/
theorem Hailed.of_portSteps (hw : Wired key home p) (hh : Hailed key p)
    (hall : ∀ x, PortStep home x (p x) (p' x)) : Hailed key p' := by
  have hqueue : ∀ n e, e ∈ (p n).queue → e.2.2.origin ≠ .comm := by
    intro n e he
    rw [(hw.queue n e he).1]
    simp
  have hhails := fun n => (hall n).hails (hqueue n) (hh.greeting n) (hh.out n)
  refine ⟨fun n => (hhails n).1, fun n => (hhails n).2.1, ?_⟩
  intro n e he
  obtain ⟨a, hne, hkey, hasked⟩ := hh.inbox n e ((hhails n).2.2 e he)
  exact ⟨a, hne, hkey, fun hm => (hall a).peers_named.2 (hasked hm)⟩

/-- **Every step of the network keeps the hellos in order.** -/
theorem Hailed.step (hw : Wired key home p) (hh : Hailed key p) (h : WireStep key home p p') :
    Hailed key p' := by
  cases h with
  | node h =>
      rename_i n q
      apply hh.of_portSteps hw
      intro x
      by_cases hx : x = n
      · subst hx
        rw [Function.update_self]
        exact h
      · rw [Function.update_of_ne hx]
        exact .skip
  | linkUp hne hnamed =>
      rename_i a b
      have hsame := forall_update_update (p := p) (P := fun x r => r = { p x with peers := r.peers })
        (u := { p a with peers := (p a).peers ++ [key b] })
        (v := { p b with peers := (p b).peers ++ [key a] }) hne rfl rfl fun _ _ _ => rfl
      refine ⟨?_, ?_, ?_⟩
      · intro n
        rw [hsame n]
        exact hh.greeting n
      · intro n
        rw [hsame n]
        exact hh.out n
      · intro n e he
        rw [hsame n] at he
        obtain ⟨x, hx, hkey, hasked⟩ := hh.inbox n e he
        refine ⟨x, hx, hkey, fun hm => ?_⟩
        rw [hsame x]
        exact hasked hm
  | transfer hne hpop =>
      rename_i a b m q
      have hnamed := forall_update_update (p := p) (P := fun x r => r.named = (p x).named)
        (u := { p a with out := q }) (v := { p b with inbox := (p b).inbox ++ [(key a, m)] })
        hne rfl rfl fun _ _ _ => rfl
      refine ⟨?_, ?_, ?_⟩
      · exact forall_update_update (P := fun _ r => ∀ c, r.greeting = some c → c ∈ r.named) hne
          (hh.greeting a) (hh.greeting b) fun x _ _ => hh.greeting x
      · apply forall_update_update (P := fun _ r => ∀ e, e ∈ r.out → e.2.Hails → e.1 ∈ r.named) hne
        · exact fun e he => hh.out a e (mem_of_mem_pop hpop he)
        · exact hh.out b
        · exact fun x _ _ => hh.out x
      · -- the message that has arrived was sent by a node that has asked
        have harrived : ∀ e, e ∈ (p b).inbox ++ [(key a, m)] →
            ∃ x, x ≠ b ∧ e.1 = key x ∧ (e.2.Hails → key b ∈ (p x).named) := by
          apply forall_mem_concat (hh.inbox b)
          exact ⟨a, hne, rfl, hh.out a _ (mem_of_pop hpop)⟩
        intro n e he
        have hin : ∃ x, x ≠ n ∧ e.1 = key x ∧ (e.2.Hails → key n ∈ (p x).named) := by
          revert he
          exact forall_update_update (u := { p a with out := q })
            (v := { p b with inbox := (p b).inbox ++ [(key a, m)] })
            (P := fun y r => e ∈ r.inbox →
              ∃ x, x ≠ y ∧ e.1 = key x ∧ (e.2.Hails → key y ∈ (p x).named)) hne
            (hh.inbox a e) (harrived e) (fun y _ _ => hh.inbox y e) n
        obtain ⟨x, hx, hkey, hasked⟩ := hin
        refine ⟨x, hx, hkey, fun hm => ?_⟩
        rw [hnamed x]
        exact hasked hm

end

/-! ## The clients -/

section

variable {ext : N → Cliid} {home : τ → N} {hwm : Nat} {w w' : N → CommHandler τ}

/-- The accepted clients of every node are distinct other nodes that it knows and that have asked
for it. -/
def Clients (ext : N → Cliid) (w : N → CommHandler τ) : Prop :=
  ∀ b, ∃ as : List N, (w b).clientLog = as.map ext ∧ as.Nodup ∧
    ∀ a ∈ as, a ≠ b ∧ (w b).clientmap (nodeKey ext a) = some true ∧ nodeKey ext b ∈ (w a).asked

/-- What a step of the network does to the clients: no node forgets whom it knows or has asked for;
and it accepts another node that it did not know and that has asked for it, or none. -/
structure Admits (ext : N → Cliid) (w w' : N → CommHandler τ) : Prop where
  known : ∀ b c, (w b).clientmap c = some true → (w' b).clientmap c = some true
  asked : ∀ a, (w a).asked ⊆ (w' a).asked
  accepted : ∀ b, (w' b).clientLog = (w b).clientLog ∨
    ∃ a, a ≠ b ∧ (w' b).clientLog = (w b).clientLog ++ [ext a] ∧
      (w b).clientmap (nodeKey ext a) ≠ some true ∧ (w' b).clientmap (nodeKey ext a) = some true ∧
      nodeKey ext b ∈ (w a).asked

theorem Clients.step (hc : Clients ext w) (h : Admits ext w w') : Clients ext w' := by
  intro b
  obtain ⟨as, hlog, hnodup, has⟩ := hc b
  have hkeep : ∀ a ∈ as, a ≠ b ∧ (w' b).clientmap (nodeKey ext a) = some true ∧
      nodeKey ext b ∈ (w' a).asked := by
    intro a ha
    obtain ⟨hne, hknown, hasked⟩ := has a ha
    exact ⟨hne, h.known b _ hknown, h.asked a hasked⟩
  rcases h.accepted b with hsame | ⟨a, hne, hnew, hunknown, hknown, hasked⟩
  · exact ⟨as, hsame.trans hlog, hnodup, hkeep⟩
  · have hfresh : a ∉ as := fun ha => hunknown (has a ha).2.1
    refine ⟨as ++ [a], ?_, ?_, ?_⟩
    · rw [hnew, hlog, List.map_append, List.map_singleton]
    · exact List.nodup_append_comm.mp (List.nodup_cons.mpr ⟨hfresh, hnodup⟩)
    · apply forall_mem_concat hkeep
      exact ⟨hne, hknown, h.asked a hasked⟩

/-- Whom a node knows, has accepted and has asked for is as before. -/
def SameClients (s s' : CommHandler τ) : Prop :=
  s'.clientmap = s.clientmap ∧ s'.clientLog = s.clientLog ∧ s'.routerConns = s.routerConns

/-- Steps that leave the clients of every node as they are admit nobody. -/
theorem admits_of_same (h : ∀ n, SameClients (w n) (w' n)) : Admits ext w w' where
  known b c hc := by
    rw [(h b).1]
    exact hc
  asked a := by
    rw [CommHandler.asked, CommHandler.asked, (h a).2.2]
    exact List.Subset.refl _
  accepted b := .inl (h b).2.1

/-- The peer of a message that is taken for a hello is a node that has asked: its first message
under way is the hello. -/
theorem NetInv.hello_of_pop (hw : NetInv ext home w)
    (hh : Hailed (nodeKey ext) fun n => (w n).port) {b : N} {c : Cliid} {m : Msg τ}
    {q : List (Cliid × Msg τ)} (hpop : pop c (w b).routerIn = some (m, q))
    (hd : m.data ≠ commHandlerSubInit) (hmap : (w b).clientmap c ≠ some true) :
    ∃ a, a ≠ b ∧ c = nodeKey ext a ∧ nodeKey ext b ∈ (w a).asked := by
  obtain ⟨a, hne, hkey, hasked⟩ := hh.inbox b (c, m) (mem_of_pop hpop)
  have hkey : c = nodeKey ext a := hkey
  subst hkey
  refine ⟨a, hne, rfl, hasked ⟨?_, hd⟩⟩
  have hunknown : ¬ (w b).port.known (nodeKey ext a) = true := mt CommHandler.port_known.mp hmap
  apply (hw.wired.pair a b).first hunknown m
    (nonSub (pipe (nodeKey ext a) q ++ pipe (nodeKey ext b) (w a).routerOut))
  show nonSub (pipe (nodeKey ext a) (w b).routerIn ++ pipe (nodeKey ext b) (w a).routerOut) = _
  rw [pop_pipe hpop, List.cons_append, ← List.singleton_append, nonSub_append,
    nonSub_singleton_of_ne hd, List.singleton_append]

theorem admits_of_netStep (hext : ∀ n, ExtId (ext n)) (hw : NetInv ext home w)
    (hh : Hailed (nodeKey ext) fun n => (w n).port) {l : NetLabel N τ}
    (h : netStep ext home hwm w l = some w') : Admits ext w w' := by
  cases netTrans_of_netStep h with
  | comm hs =>
      rename_i b l s
      obtain ⟨hknown, hasked, haccepted⟩ := CommHandler.clients_commStep hs
      refine ⟨?_, ?_, ?_⟩
      · exact forall_update (P := fun n s => ∀ c, (w n).clientmap c = some true →
          s.clientmap c = some true) (fun _ _ hc => hc) b hknown
      · exact forall_update (P := fun n s => (w n).asked ⊆ s.asked) (fun _ => List.Subset.refl _) b
          hasked
      · refine forall_update (P := fun n s => s.clientLog = (w n).clientLog ∨
          ∃ a, a ≠ n ∧ s.clientLog = (w n).clientLog ++ [ext a] ∧
            (w n).clientmap (nodeKey ext a) ≠ some true ∧ s.clientmap (nodeKey ext a) = some true ∧
            nodeKey ext n ∈ (w a).asked) (fun _ => .inl rfl) b ?_
        rcases haccepted with hsame | ⟨c, m, q, hpop, hd, hmap, hnow, hlog⟩
        · exact .inl hsame
        · rw [forwarded_of_lt (hw.short b _ (mem_of_pop hpop))] at hd
          obtain ⟨a, hne, rfl, hnamed⟩ := hw.hello_of_pop hh hpop hd hmap
          refine .inr ⟨a, hne, ?_, hmap, hnow, hnamed⟩
          rw [hlog, nodeKey, idi2e_ide2i (hext a)]
  | app hs =>
      have hf := CommHandler.appFrame_of_appStep hs
      apply admits_of_same
      apply forall_update (P := fun n => SameClients (w n)) fun _ => ⟨rfl, rfl, rfl⟩
      exact ⟨hf.clientmap, hf.clientLog, hf.routerConns⟩
  | ctor | monitor | multicast =>
      apply admits_of_same
      apply forall_update (P := fun n => SameClients (w n)) fun _ => ⟨rfl, rfl, rfl⟩
      exact ⟨rfl, rfl, rfl⟩
  | linkUp | transfer =>
      apply admits_of_same
      apply forall_update (P := fun n => SameClients (w n))
      · apply forall_update (P := fun n => SameClients (w n)) fun _ => ⟨rfl, rfl, rfl⟩
        exact ⟨rfl, rfl, rfl⟩
      · exact ⟨rfl, rfl, rfl⟩

/-- Seen through their ports, the nodes take a step of the wires. -/
theorem wireStep_of_netStep (hw : NetInv ext home w) {l : NetLabel N τ} (hok : NoLoss l)
    (h : netStep ext home hwm w l = some w') :
    WireStep (nodeKey ext) home (fun n => (w n).port) fun n => (w' n).port := by
  cases netTrans_of_netStep h with
  | comm hs =>
      rw [port_update]
      exact .node (CommHandler.portStep_of_commStep (hw.pubClean _) (hw.short _) hok hs)
  | app hs =>
      rw [port_update]
      exact .node (CommHandler.portStep_of_appStep rfl hs)
  | ctor | monitor | multicast =>
      rw [port_update]
      exact .node (CommHandler.portStep_congr .skip rfl)
  | linkUp hne hnamed =>
      rw [port_update, port_update]
      exact .linkUp hne hnamed
  | transfer hne hpop =>
      rw [port_update, port_update]
      exact .transfer hne hpop

/-- The bookkeeping of every node is kept by every step of the network. -/
theorem desk_netStep (hd : ∀ n, (w n).Desk) {l : NetLabel N τ}
    (h : netStep ext home hwm w l = some w') : ∀ n, (w' n).Desk := by
  cases netTrans_of_netStep h with
  | comm hs =>
      apply forall_update (P := fun _ => CommHandler.Desk) hd
      exact CommHandler.desk_commStep (hd _) hs
  | app hs =>
      apply forall_update (P := fun _ => CommHandler.Desk) hd
      exact CommHandler.desk_appStep (hd _) hs
  | ctor | monitor | multicast =>
      apply forall_update (P := fun _ => CommHandler.Desk) hd
      exact CommHandler.desk_congr (hd _) rfl rfl rfl rfl rfl rfl
  | linkUp | transfer =>
      exact forall_update₂ hd _ _ (CommHandler.desk_congr (hd _) rfl rfl rfl rfl rfl rfl)
        (CommHandler.desk_congr (hd _) rfl rfl rfl rfl rfl rfl)

/-- What holds of the network besides `NetInv`. -/
structure Acquainted (ext : N → Cliid) (home : τ → N) (w : N → CommHandler τ) : Prop where
  inv : NetInv ext home w
  hailed : Hailed (nodeKey ext) fun n => (w n).port
  desk : ∀ n, (w n).Desk
  clients : Clients ext w

theorem acquainted_init (acceptConns : N → Bool) :
    Acquainted ext home (netInit τ ext acceptConns) := by
  refine ⟨netInv_init acceptConns, ⟨?_, ?_, ?_⟩, fun n => CommHandler.desk_init _ _, ?_⟩
  · intro n c hc
    cases hc
  · intro n e he
    cases he
  · intro n e he
    cases he
  · intro b
    exact ⟨[], rfl, List.nodup_nil, fun a ha => by cases ha⟩

theorem acquainted_step (hinj : Function.Injective ext) (hext : ∀ n, ExtId (ext n))
    (hw : Acquainted ext home w) {l : NetLabel N τ} (hok : NoLoss l)
    (h : netStep ext home hwm w l = some w') : Acquainted ext home w' where
  inv := netInv_step (nodeKey_injective hinj hext) hw.inv hok h
  hailed := hw.hailed.step hw.inv.wired (wireStep_of_netStep hw.inv hok h)
  desk := desk_netStep hw.desk h
  clients := hw.clients.step (admits_of_netStep hext hw.inv hw.hailed h)

theorem acquainted_exec (hinj : Function.Injective ext) (hext : ∀ n, ExtId (ext n))
    {acceptConns : N → Bool} {ls : List (NetLabel N τ)} (hok : ∀ l ∈ ls, NoLoss l)
    (hrun : exec (netStep ext home hwm) (netInit τ ext acceptConns) ls = some w) :
    Acquainted ext home w := by
  have hmeets : Meets (netStep ext home hwm) (fun _ l => NoLoss l) (netInit τ ext acceptConns) ls :=
    meets_of_forall_mem fun l hl _ => hok l hl
  refine exec_invariant_of_meets ?_ (acquainted_init acceptConns) hmeets hrun
  intro s l s' hs hl hstep
  exact acquainted_step hinj hext hs hl hstep

/-! ## The agreement -/

/-- No client has the id -1, under which nobody would be handed out. -/
theorem Acquainted.toInt_ne (hext : ∀ n, ExtId (ext n)) (hw : Acquainted ext home w) {b : N}
    {x : Cliid} (hx : x ∈ (w b).clientLog) : x.toInt ≠ -1 := by
  obtain ⟨as, hlog, -, -⟩ := hw.clients b
  rw [hlog] at hx
  obtain ⟨a, -, rfl⟩ := List.mem_map.mp hx
  have hnonneg : 0 ≤ (ext a).toInt := Int32.le_iff_toInt_le.mp (hext a).1
  omega

/-- **Who is handed out by `get_one_connection` has asked for the connection, and who has asked is
handed out.** In any network of nodes with distinct ids in `[0, 2^27)`, in every state of every run
in which no message is lost in a failing send and no payload is a `sub_hello`. -/
theorem connection_agreement (ext : N → Cliid) (hinj : Function.Injective ext)
    (hext : ∀ n, ExtId (ext n)) (home : τ → N) (hwm : Nat) (acceptConns : N → Bool)
    (ls : List (NetLabel N τ)) (hok : ∀ l ∈ ls, NoLoss l) (w : N → CommHandler τ)
    (hrun : exec (netStep ext home hwm) (netInit τ ext acceptConns) ls = some w) :
    ConnectionAgreement ext w := by
  have hw := acquainted_exec hinj hext hok hrun
  refine ⟨?_, ?_, ?_, ?_⟩
  · intro b
    obtain ⟨taken, hlog, hout⟩ := (hw.desk b).order
    have hall : (taken.map Int32.toInt).filter (· ≠ -1) = taken.map Int32.toInt := by
      apply List.filter_eq_self.mpr
      intro v hv
      obtain ⟨x, hx, rfl⟩ := List.mem_map.mp hv
      have hmem : x ∈ (w b).clientLog := hlog ▸ List.mem_append_left _ hx
      exact decide_eq_true (hw.toInt_ne hext hmem)
    rw [hout, hall, hlog, List.map_append]
  · intro b
    obtain ⟨as, hlog, hnodup, -⟩ := hw.clients b
    rw [hlog]
    exact hnodup.map hinj
  · intro b x hx
    obtain ⟨as, hlog, -, has⟩ := hw.clients b
    rw [hlog] at hx
    obtain ⟨a, ha, rfl⟩ := List.mem_map.mp hx
    exact ⟨a, (has a ha).1, rfl, (has a ha).2.2⟩
  · intro a b hne hnot hgreet hstream
    obtain ⟨as, hlog, -, has⟩ := hw.clients b
    constructor
    · intro hx
      rw [hlog] at hx
      obtain ⟨a', ha, heq⟩ := List.mem_map.mp hx
      rw [← hinj heq]
      exact (has a' ha).2.2
    · intro hasked
      have hknown : (w b).clientmap (nodeKey ext a) = some true := by
        rcases (hw.inv.wired.pair a b).greeted hasked with hg | hk | hs
        · exact absurd hg hgreet
        · exact CommHandler.port_known.mp hk
        · rw [hstream] at hs
          exact absurd rfl hs
      have hlogged := ((hw.desk b).known _ hknown).resolve_left hnot
      rw [nodeKey, idi2e_ide2i (hext a)] at hlogged
      exact hlogged

end

/-- The run of two nodes, and then node 3 asks whom it has accepted. -/
theorem connection_agreement_twoNodes :
    ∃ w : Bool → CommHandler Bool,
      exec (netStep (fun b => if b then 3 else 2) id 10)
        (netInit Bool (fun b => if b then 3 else 2) id)
        (twoNodes ++ [.app true .test, .app true .getOneConnection, .app true .pop]) = some w ∧
      ConnectionAgreement (fun b => if b then 3 else 2) w ∧ handedOut (w true).rets = [2] ∧
      (w false).clientLog = [] := by
  obtain ⟨w, hrun, hw⟩ := exists_exec (netStep (fun b => if b then 3 else 2) id 10)
    (netInit Bool (fun b => if b then 3 else 2) id)
    (twoNodes ++ [.app true .test, .app true .getOneConnection, .app true .pop])
    (fun w => handedOut (w true).rets = [2] ∧ (w false).clientLog = []) (by decide)
  refine ⟨w, hrun, ?_, of_decide_eq_true hw⟩
  have hinj : Function.Injective fun b : Bool => if b then (3 : Cliid) else 2 := by
    intro a b hab
    revert a b
    decide
  have hok : ∀ l ∈ twoNodes ++ [.app true .test, .app true .getOneConnection, .app true .pop],
      NoLoss l := by
    simp [twoNodes, NoLoss]
    decide
  exact connection_agreement _ hinj (by decide) id 10 id _ hok w hrun

end CommTest.Zmq
