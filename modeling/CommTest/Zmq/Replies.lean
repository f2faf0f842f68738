import CommTest.Zmq.Provenance
import Mathlib.Data.List.Count

/-!
# The replies to the announcements of `init_pub`

`init_pub` announces its group until enough `sub_hello` have come back; a subscriber answers the
first announcement it takes from a publisher that is not in its `publishermap`. At one node:

* `answers`, `takesSub` and `takesReply` read off a step the announcement it answers, what it takes
  from the SUB socket and the reply it takes from `suberq`;
* `repliesOut` counts the replies the node has handed to its ROUTER socket, `repliesIn` those that
  have come in and were not given to a call;
* `commStep_repliesOut` and `commStep_repliesIn` bound both: a node makes at most one reply to a
  publisher, and no reply comes up that had not arrived.
* `appStep_publishing` says what a call of `init_pub` does with them.
-/

set_option linter.unusedSectionVars false

namespace CommTest.Zmq

open FairQueue Lts

variable {τ : Type} [DecidableEq τ]

/-! ## Announcements and replies -/

namespace CommHandler

/-- The announcement that a step of the comm thread answers: its publisher and its group. -/
def answers (s : CommHandler τ) : CommLabel τ → Option (Cliid × Cliid)
  | .subSock behind junk sent =>
      match s.subSock with
      | (gid, m) :: _ =>
          if (m.data ++ behind).take commHandlerPubInit.length = commHandlerPubInit ∧
              s.publishermap (pubId junk (cstr m.data behind)) = none ∧ sent = true then
            some (pubId junk (cstr m.data behind), gid)
          else none
      | [] => none
  | _ => none

/-- What a step of the comm thread takes from the SUB socket. -/
def takesSub (s : CommHandler τ) : CommLabel τ → List (Cliid × Msg τ)
  | .subSock _ _ _ => s.subSock.take 1
  | _ => []

/-- The reply that a step of thread `t` takes from `suberq` and counts: the group of its call and
the peer. -/
def takesReply (s : CommHandler τ) (t : τ) : AppLabel → Option (Cliid × Cliid)
  | .drain =>
      match s.app t, pop t s.suberPipes with
      | .drain gid _ _, some ((c, m), _) => if m.data ≠ [] then some (gid, c) else none
      | _, _ => none
  | _ => none

end CommHandler

/-- The group of the call of `init_pub` that a thread is in, with the number of subscribers to wait
for and the replies counted so far. -/
def AppPc.publishing : AppPc → Option (Cliid × Int × Int)
  | .announce gid numSubs nsubs | .announced gid numSubs nsubs | .drain gid numSubs nsubs =>
      some (gid, numSubs, nsubs)
  | _ => none

/-! ## The replies at one node -/

namespace CommHandler

/-- The replies that the node has handed to its ROUTER socket for `c`. -/
def repliesOut (s : CommHandler τ) (c : Cliid) : Nat :=
  (pipe c s.routerOut).countP fun m => m.data = commHandlerSubInit

/-- The peers whose replies are being pushed on `suberq` or wait in it. -/
def suberKeys (s : CommHandler τ) : List Cliid :=
  s.heldSuber.map Prod.fst ++ s.suberPipes.map fun e => e.2.1

/-- The replies of `c` that the node has not given to a call. -/
def repliesIn (s : CommHandler τ) (c : Cliid) : Nat :=
  (pipe c s.routerIn).countP (fun m => m.data = commHandlerSubInit) + s.suberKeys.count c

/-- How many replies to `c` the node has made: one as soon as it has `c` in its `publishermap`. -/
def replied (s : CommHandler τ) (c : Cliid) : Nat := if s.publishermap c = none then 0 else 1

/-- A step of the comm thread makes at most one reply, and only to a publisher that is new. -/
theorem commStep_repliesOut {hwm : Nat} {s s' : CommHandler τ} {l : CommLabel τ}
    (hqueue : ∀ e ∈ s.msgq, forwarded e.2.2.data ≠ commHandlerSubInit)
    (h : s.commStep hwm l = some s') (c : Cliid) :
    s'.repliesOut c + s.replied c ≤ s.repliesOut c + s'.replied c := by
  have hother : ∀ (dest : Cliid) (m : Msg τ), m.data ≠ commHandlerSubInit →
      (pipe c (s.routerOut ++ [(dest, m)])).countP (fun m => m.data = commHandlerSubInit) =
        s.repliesOut c := by
    intro dest m hm
    by_cases hc : dest = c
    · simp [repliesOut, hc, hm]
    · simp [repliesOut, hc]
  cases commTrans_of_commStep h with
  | @msgqSent rest t cid m q hpc hpop hpeer hlen =>
      have hdata := hqueue _ (mem_of_pop hpop)
      exact (congrArg (· + s.replied c) (hother cid m.forwarded hdata)).le
  | hello hpc hpeer =>
      exact le_of_eq (congrArg (· + _) (hother _ _ commHandlerInit_ne_commHandlerSubInit))
  | subSockNew hpc hq hpub hpid hmap hpeer =>
      rename_i rest behind junk gid m q pid sent
      by_cases hc : pid = c
      · subst hc
        cases sent <;> simp [repliesOut, replied, unlock, subReply, hmap]
      · have hc' : c ≠ pid := fun h => hc h.symm
        cases sent <;> simp [repliesOut, replied, unlock, subReply, hc, hc']
  | _ => exact le_rfl

/-- A step of the comm thread brings no reply that had not arrived. -/
theorem commStep_repliesIn {hwm : Nat} {s s' : CommHandler τ} {l : CommLabel τ}
    (hshort : ∀ e ∈ s.routerIn, e.2.data.length < 2 ^ 31) (h : s.commStep hwm l = some s')
    (c : Cliid) : s'.repliesIn c ≤ s.repliesIn c := by
  have hdrop : ∀ u : CommHandler τ, u.routerIn = s.routerIn → u.suberPipes = s.suberPipes →
      u.heldSuber = [] → u.repliesIn c ≤ s.repliesIn c := by
    intro u h1 h2 h3
    simp only [repliesIn, suberKeys, h1, h2, h3, List.map_nil, List.nil_append, List.count_append]
    omega
  have hpopped : ∀ (u : CommHandler τ) (c' : Cliid) (m : Msg τ) (q : List (Cliid × Msg τ)),
      pop c' s.routerIn = some (m, q) → u.routerIn = q → u.suberPipes = s.suberPipes →
      s.heldSuber = [] →
      (u.heldSuber = [] ∨ (∃ m', u.heldSuber = [(c', m')]) ∧ m.data = commHandlerSubInit) →
      u.repliesIn c ≤ s.repliesIn c := by
    intro u c' m q hpop h1 h2 h3 h4
    have hin : (pipe c q).countP (fun m => m.data = commHandlerSubInit) +
        (if c' = c ∧ m.data = commHandlerSubInit then 1 else 0) =
        (pipe c s.routerIn).countP (fun m => m.data = commHandlerSubInit) := by
      by_cases hc : c = c'
      · subst hc
        rw [pop_pipe hpop, List.countP_cons]
        simp
      · rw [pop_pipe_ne hc hpop, if_neg fun h => hc h.1.symm, Nat.add_zero]
    simp only [repliesIn, suberKeys, h1, h2, h3, List.map_nil, List.nil_append, List.count_append]
    rcases h4 with h4 | ⟨⟨m', h4⟩, hm⟩
    · rw [h4, List.map_nil, List.count_nil]
      omega
    · rw [h4, List.map_singleton, List.count_singleton]
      simp only [hm, and_true] at hin
      by_cases hc : c' = c
      · simp only [hc, if_true, beq_self_eq_true] at hin ⊢
        omega
      · simp only [hc, if_false, beq_iff_eq] at hin ⊢
        omega
  cases commTrans_of_commStep h with
  | helloRetry => exact le_rfl
  | routerSuber hpc hpop hd =>
      rw [forwarded_of_lt (hshort _ (mem_of_pop hpop))] at hd
      exact hpopped _ _ _ _ hpop rfl rfl (by simp [heldSuber, hpc]) (.inr ⟨⟨_, rfl⟩, hd⟩)
  | routerClient hpc hpop hd hmap =>
      exact hpopped _ _ _ _ hpop rfl rfl (by simp [heldSuber, hpc]) (.inl rfl)
  | routerTask hpc hpop hd hmap =>
      exact hpopped _ _ _ _ hpop rfl rfl (by simp [heldSuber, hpc]) (.inl rfl)
  | pushSuber hpc ht hroom =>
      simp only [repliesIn, suberKeys, heldSuber, hpc, unlock, List.map_append, List.map_nil,
        List.map_cons, List.nil_append, List.count_append]
      omega
  | _ => exact hdrop _ rfl rfl rfl

theorem takesReply_of_ne {s : CommHandler τ} {t : τ} {l : AppLabel}
    (h : ∀ gid numSubs nsubs, s.app t ≠ .drain gid numSubs nsubs) : s.takesReply t l = none := by
  cases l with
  | drain =>
      simp only [takesReply]
      split
      · rename_i gid numSubs nsubs c m q hpc hpop
        exact absurd hpc (h gid numSubs nsubs)
      · rfl
  | _ => rfl

/-- A drain that goes back to announce has counted nothing. -/
theorem takesReply_of_announce {s s' : CommHandler τ} {t : τ} {gid : Cliid} {numSubs nsubs : Int}
    (hpc : s.app t = .drain gid numSubs nsubs) (h : s.appStep t .drain = some s')
    (hend : s'.app t = .announce gid numSubs nsubs) : s.takesReply t .drain = none := by
  simp only [takesReply, hpc]
  simp only [appStep, hpc] at h
  cases hpop : pop t s.suberPipes with
  | none => rfl
  | some e =>
      obtain ⟨⟨c, m⟩, q⟩ := e
      rw [hpop] at h
      by_cases hm : m.data ≠ []
      · simp only [if_pos hm, Option.some.injEq] at h
        have happ := congrArg (fun u => u.app t) h
        simp [goto, hend] at happ
      · simp only [if_neg hm]

/-- What a step of thread `t` does to `suberq` and to the call of `init_pub` it is in: it counts a
reply; or it counts none, and a call it begins has counted none. -/
theorem appStep_publishing {s s' : CommHandler τ} {t : τ} {l : AppLabel}
    (h : s.appStep t l = some s') :
    (∃ gid c numSubs nsubs m, s.takesReply t l = some (gid, c) ∧
      (s.app t).publishing = some (gid, numSubs, nsubs) ∧
      (s'.app t).publishing = some (gid, numSubs, nsubs + 1) ∧
      pop t s.suberPipes = some ((c, m), s'.suberPipes)) ∨
    (s.takesReply t l = none ∧
      (s'.suberPipes = s.suberPipes ∨ ∃ x, pop t s.suberPipes = some (x, s'.suberPipes)) ∧
      ∀ gid numSubs nsubs, (s'.app t).publishing = some (gid, numSubs, nsubs) →
        (s.app t).publishing = some (gid, numSubs, nsubs) ∨
          (s.app t).publishing = none ∧ nsubs = 0) := by
  obtain ⟨pullers, hattach⟩ := attachTask_eq s t
  -- the steps outside the announcement loop, those inside it, and those that begin it
  have hquiet : ∀ pc : AppPc, s'.app t = pc → pc.publishing = none →
      ∀ gid numSubs nsubs, (s'.app t).publishing = some (gid, numSubs, nsubs) →
        (s.app t).publishing = some (gid, numSubs, nsubs) ∨
          (s.app t).publishing = none ∧ nsubs = 0 := by
    intro pc hpc hnone gid numSubs nsubs hp
    rw [hpc, hnone] at hp
    cases hp
  have hloop : ∀ pc : AppPc, s'.app t = pc → pc.publishing = (s.app t).publishing →
      ∀ gid numSubs nsubs, (s'.app t).publishing = some (gid, numSubs, nsubs) →
        (s.app t).publishing = some (gid, numSubs, nsubs) ∨
          (s.app t).publishing = none ∧ nsubs = 0 := by
    intro pc hpc hsame gid numSubs nsubs hp
    rw [hpc, hsame] at hp
    exact .inl hp
  have hbegin : ∀ g n, s'.app t = .announce g n 0 → (s.app t).publishing = none →
      ∀ gid numSubs nsubs, (s'.app t).publishing = some (gid, numSubs, nsubs) →
        (s.app t).publishing = some (gid, numSubs, nsubs) ∨
          (s.app t).publishing = none ∧ nsubs = 0 := by
    intro g n hpc hnone gid numSubs nsubs hp
    rw [hpc] at hp
    cases hp
    exact .inr ⟨hnone, rfl⟩
  have hself : ∀ (f : τ → AppPc) (pc : AppPc), Function.update f t pc t = pc :=
    fun f pc => Function.update_self _ _ _
  cases appTrans_of_appStep h with
  | drain hpc hpop hm =>
      rename_i gid numSubs nsubs cid m q
      refine .inl ⟨gid, cid, numSubs, nsubs, m, ?_, by rw [hpc]; rfl, ?_, hpop⟩
      · simp [takesReply, hpc, hpop, hm]
      · simp [goto, AppPc.publishing]
  | drainEmpty hpc hpop =>
      exact .inr ⟨takesReply_of_announce hpc h (hself _ _), .inr ⟨_, hpop⟩,
        hloop _ (hself _ _) (by rw [hpc]; rfl)⟩
  | drainEnd hpc =>
      exact .inr ⟨takesReply_of_announce hpc h (hself _ _), .inl rfl,
        hloop _ (hself _ _) (by rw [hpc]; rfl)⟩
  | announce hpc | announced hpc =>
      exact .inr ⟨takesReply_of_ne (by simp [hpc]), .inl rfl,
        hloop _ (hself _ _) (by rw [hpc]; rfl)⟩
  | announceStart hpc =>
      exact .inr ⟨takesReply_of_ne (by simp [hpc]), .inl rfl,
        hbegin _ _ (hself _ _) (by rw [hpc]; rfl)⟩
  | unlock hpc =>
      rename_i r
      cases r with
      | pubStart text g n =>
          exact .inr ⟨takesReply_of_ne (by simp [hpc]), .inl rfl,
            hbegin _ _ (hself _ _) (by rw [hpc]; rfl)⟩
      | connect | subscribe =>
          exact .inr ⟨takesReply_of_ne (by simp [hpc]), .inl rfl, hquiet _ (hself _ _) rfl⟩
  | sendReq hpc =>
      rename_i r
      cases r <;> exact .inr ⟨takesReply_of_ne (by simp [hpc]), .inl rfl, hquiet _ (hself _ _) rfl⟩
  | recv hpc | recvAsync hpc | recvAsyncEmpty hpc | recvAsyncNone hpc =>
      refine .inr ⟨takesReply_of_ne (by simp [hpc]), .inl ?_, hquiet _ (hself _ _) rfl⟩
      rw [hattach]
      rfl
  | reject hpc | call hpc | lock hpc | sendReqFail hpc | relock hpc | announcedFail hpc
  | announceEnd hpc | publish hpc | send hpc | recvDone hpc | getOneConnection hpc | pop hpc
  | shutdown hpc | join hpc | test hpc =>
      exact .inr ⟨takesReply_of_ne (by simp [hpc]), .inl rfl, hquiet _ (hself _ _) rfl⟩

/-- The two states agree on what the comm thread knows of replies and publishers. -/
structure SameWires (s s' : CommHandler τ) : Prop where
  pc : s'.pc = s.pc
  routerOut : s'.routerOut = s.routerOut
  routerIn : s'.routerIn = s.routerIn
  publishermap : s'.publishermap = s.publishermap
  subGroups : s'.subGroups = s.subGroups

/-- They also agree on `suberq` and on the calls. -/
structure Undisturbed (s s' : CommHandler τ) : Prop extends SameWires s s' where
  suberPipes : s'.suberPipes = s.suberPipes
  app : s'.app = s.app

theorem Undisturbed.refl (s : CommHandler τ) : Undisturbed s s := ⟨⟨rfl, rfl, rfl, rfl, rfl⟩, rfl, rfl⟩

/-- The two states differ at most in what the ROUTER socket carries. -/
structure OnlyRouter (s s' : CommHandler τ) : Prop where
  suberKeys : s'.suberKeys = s.suberKeys
  publishermap : s'.publishermap = s.publishermap
  subGroups : s'.subGroups = s.subGroups
  subSock : s'.subSock = s.subSock
  app : s'.app = s.app

/-- What arrived on the SUB socket arrived on a group the node is subscribed to. -/
def Grouped (s : CommHandler τ) : Prop := ∀ e ∈ s.subSock, e.1 ∈ s.subGroups

theorem appStep_sameWires {s s' : CommHandler τ} {t : τ} {l : AppLabel}
    (h : s.appStep t l = some s') : SameWires s s' ∧ s'.subSock = s.subSock := by
  have hf := appFrame_of_appStep h
  exact ⟨⟨hf.pc, hf.routerOut, hf.routerIn, hf.publishermap, hf.subGroups⟩, hf.subSock⟩

/-- A group stays subscribed. -/
theorem commStep_groups {hwm : Nat} {s s' : CommHandler τ} {l : CommLabel τ} (hs : s.Grouped)
    (h : s.commStep hwm l = some s') : s'.Grouped ∧ s.subGroups ⊆ s'.subGroups := by
  cases commTrans_of_commStep h with
  | sub | subSetFail =>
      exact ⟨fun e he => List.mem_append_left _ (hs e he), List.subset_append_left _ _⟩
  | subSockNew hpc hq | subSockOld hpc hq | subSockTask hpc hq =>
      exact ⟨fun e he => hs e (hq ▸ List.mem_cons_of_mem _ he), List.Subset.refl _⟩
  | _ => exact ⟨hs, List.Subset.refl _⟩

/-- A reply on `suberq` came from the ROUTER socket. -/
theorem commStep_suberKeys {hwm : Nat} {s s' : CommHandler τ} {l : CommLabel τ}
    (h : s.commStep hwm l = some s') {c : Cliid} (hc : c ∈ s'.suberKeys) :
    c ∈ s.suberKeys ∨ ∃ m, (c, m) ∈ s.routerIn := by
  have hpipes : ∀ u : CommHandler τ, c ∈ u.suberKeys → u.suberPipes = s.suberPipes →
      u.heldSuber = [] → c ∈ s.suberKeys := by
    intro u hu h1 h2
    rw [suberKeys, h1, h2] at hu
    exact List.mem_append_right _ hu
  cases commTrans_of_commStep h with
  | helloRetry => exact .inl hc
  | routerSuber hpc hpop hd =>
      rcases List.mem_append.mp hc with hc | hc
      · rw [show c = _ from List.mem_singleton.mp hc]
        exact .inr ⟨_, mem_of_pop hpop⟩
      · exact .inl (List.mem_append_right _ hc)
  | pushSuber hpc =>
      refine .inl ?_
      simpa [suberKeys, heldSuber, hpc, unlock, or_comm] using hc
  | _ => exact .inl (hpipes _ hc rfl rfl)

/-- A publisher stays in `publishermap`. -/
theorem commStep_publishermap {hwm : Nat} {s s' : CommHandler τ} {l : CommLabel τ}
    (h : s.commStep hwm l = some s') {pid : Cliid} (hp : s.publishermap pid ≠ none) :
    s'.publishermap pid ≠ none := by
  cases commTrans_of_commStep h with
  | subSockNew hpc hq hpub hpid hmap hpeer =>
      rename_i rest behind junk gid m q pid' sent
      by_cases hc : pid = pid'
      · simp [unlock, hc]
      · simpa [unlock, hc] using hp
  | _ => exact hp

/-- An answer: the announcement is taken from the SUB socket, and its publisher is entered into
`publishermap`, where it was not. -/
theorem commStep_answers {hwm : Nat} {s s' : CommHandler τ} {l : CommLabel τ} {pid gid : Cliid}
    (h : s.commStep hwm l = some s') (ha : s.answers l = some (pid, gid)) :
    s.publishermap pid = none ∧ s'.publishermap pid ≠ none ∧
    ∃ behind junk m q, s.subSock = (gid, m) :: q ∧ s.takesSub l = [(gid, m)] ∧
      (m.data ++ behind).take commHandlerPubInit.length = commHandlerPubInit ∧
      pid = pubId junk (cstr m.data behind) := by
  unfold answers at ha
  split at ha
  · rename_i behind junk sent
    split at ha
    · rename_i gid' m q hq
      split_ifs at ha with hc
      cases ha
      refine ⟨hc.2.1, ?_, behind, junk, m, q, hq, by simp [takesSub, hq], hc.1, rfl⟩
      cases commTrans_of_commStep h with
      | subSockNew hpc hq' hpub hpid =>
          rw [hq] at hq'
          cases hq'
          simp [unlock, hpid]
      | subSockOld hpc hq' hpub hmap =>
          rw [hq] at hq'
          cases hq'
          exact absurd hc.2.1 hmap
      | subSockTask hpc hq' hpub =>
          rw [hq] at hq'
          cases hq'
          exact absurd hc.1 hpub
    · cases ha
  · cases ha

/-- A reply taken from `suberq` is one fewer that waits. -/
theorem SameWires.suberKeys_pop {s s' : CommHandler τ} (hs : SameWires s s') {t : τ} {c : Cliid}
    {m : Msg τ} (hpop : pop t s.suberPipes = some ((c, m), s'.suberPipes)) (x : Cliid) :
    s.suberKeys.count x = s'.suberKeys.count x + if c = x then 1 else 0 := by
  obtain ⟨l, r, hl, hr, -⟩ := pop_split hpop
  have hheld : s'.heldSuber = s.heldSuber := by rw [heldSuber, heldSuber, hs.pc]
  rw [suberKeys, suberKeys, hheld, hl, hr]
  simp only [List.map_append, List.map_cons, List.count_append, List.count_cons, beq_iff_eq]
  omega

/-- A call brings no reply into `suberq`. -/
theorem SameWires.count_suberKeys_le {s s' : CommHandler τ} (hs : SameWires s s')
    (hq : s'.suberPipes = s.suberPipes ∨ ∃ t x, pop t s.suberPipes = some (x, s'.suberPipes))
    (c : Cliid) : s'.suberKeys.count c ≤ s.suberKeys.count c := by
  rcases hq with hq | ⟨t, ⟨c', m⟩, hpop⟩
  · rw [suberKeys, suberKeys, heldSuber, heldSuber, hs.pc, hq]
  · rw [hs.suberKeys_pop hpop c]
    exact Nat.le_add_right _ _

theorem SameWires.suberKeys_subset {s s' : CommHandler τ} (hs : SameWires s s')
    (hq : s'.suberPipes = s.suberPipes ∨ ∃ t x, pop t s.suberPipes = some (x, s'.suberPipes)) :
    s'.suberKeys ⊆ s.suberKeys := by
  intro c hc
  have hle := hs.count_suberKeys_le hq c
  have hpos := List.count_pos_iff.mpr hc
  exact List.count_pos_iff.mp (by omega)

theorem SameWires.repliesIn_le {s s' : CommHandler τ} (hs : SameWires s s')
    (hq : s'.suberPipes = s.suberPipes ∨ ∃ t x, pop t s.suberPipes = some (x, s'.suberPipes))
    (c : Cliid) : s'.repliesIn c ≤ s.repliesIn c := by
  rw [repliesIn, repliesIn, hs.routerIn]
  exact Nat.add_le_add_left (hs.count_suberKeys_le hq c) _

/-- A message that leaves for `c` takes its reply along. -/
theorem repliesOut_pop {s s' : CommHandler τ} {c : Cliid} {m : Msg τ}
    (hpop : pop c s.routerOut = some (m, s'.routerOut)) (x : Cliid) :
    s.repliesOut x =
      s'.repliesOut x + if c = x ∧ m.data = commHandlerSubInit then 1 else 0 := by
  by_cases hx : x = c
  · subst hx
    rw [repliesOut, repliesOut, pop_pipe hpop, List.countP_cons]
    simp
  · rw [repliesOut, repliesOut, pop_pipe_ne hx hpop, if_neg fun h => hx h.1.symm, Nat.add_zero]

/-- A message that comes in from `c` brings its reply along. -/
theorem repliesIn_arrive (s : CommHandler τ) (c : Cliid) (m : Msg τ) (x : Cliid) :
    (s.envStep (.arrive c m)).repliesIn x =
      s.repliesIn x + if c = x ∧ m.data = commHandlerSubInit then 1 else 0 := by
  have hkeys : (s.envStep (.arrive c m)).suberKeys = s.suberKeys := rfl
  rw [repliesIn, repliesIn, hkeys]
  by_cases hx : c = x
  · by_cases hm : m.data = commHandlerSubInit
    · simp only [envStep, pipe_append, pipe_cons, pipe_nil, hx, hm, List.countP_append, and_self,
        if_true, List.countP_singleton, decide_true]
      omega
    · simp [envStep, hm]
  · simp [envStep, hx]

end CommHandler

end CommTest.Zmq
