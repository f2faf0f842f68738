import CommTest.Zmq.Release
import CommTest.Zmq.Replies
import Mathlib.Data.Fintype.Basic
import Mathlib.Data.List.Nodup
import Mathlib.Data.Set.List

/-!
# Does `init_pub` wait for the subscribers of its group?

`init_pub(.., gid, n)` announces on `gid` until it has taken `n` replies from `suberq`. A reply
names neither a group nor the announcement it answers, `suberq` is shared by all calls and is never
emptied between them, so a call may count the reply to an announcement of another group.

* `Publication` is a network with two histories: what each node took from its SUB socket, and for
  each publisher the group of the announcement a node answered; and two that follow the calls: the
  peers whose replies a node has taken from `suberq`, and those that the current call of a thread
  counted.
* `EnoughSubscribers` is what a call of `init_pub` that is about to return 0 promises.
* `OwnReplies` is the condition: every reply that a call takes answers an announcement of its own
  group. `NoImitation` is the condition on the payloads, which must not pass for handshake messages.
* The invariant is a budget (`Publication.Inv.budget`): the replies of `b` to `p` under way and
  those that `p` has taken are together at most one, and none before `b` has `p` in its
  `publishermap`.
-/

set_option linter.unusedSectionVars false

namespace CommTest.Zmq

open FairQueue Lts

variable {N τ : Type} [DecidableEq N] [DecidableEq τ]

/-! ## A network with its publications -/

/-- A network with the history of its announcements. -/
structure Publication (N τ : Type) where
  net : N → CommHandler τ
  /-- What a node took from its SUB socket. -/
  got : N → List (Cliid × Msg τ)
  /-- The group of the announcement of a publisher that a node answered. -/
  answered : N → Cliid → Option Cliid
  /-- The peers whose replies a node took from `suberq`, over all calls. -/
  used : N → List Cliid
  /-- The peers whose replies the current call of a thread took. -/
  counted : τ → List Cliid

namespace Publication

/-- All nodes constructed and nothing sent. -/
def init (τ : Type) (ext : N → Cliid) (acceptConns : N → Bool) : Publication N τ :=
  ⟨netInit τ ext acceptConns, fun _ => [], fun _ _ => none, fun _ => [], fun _ => []⟩

/-- What a step into `w'` adds to the histories. -/
def record (home : τ → N) (w : Publication N τ) (w' : N → CommHandler τ) :
    NetLabel N τ → Publication N τ
  | .comm n l =>
      { w with net := w',
               got := Function.update w.got n (w.got n ++ (w.net n).takesSub l),
               answered := match (w.net n).answers l with
                 | some (pid, gid) =>
                     Function.update w.answered n (Function.update (w.answered n) pid (some gid))
                 | none => w.answered }
  | .app t l =>
      match (w.net (home t)).takesReply t l with
      | some (_, c) =>
          { w with net := w', used := Function.update w.used (home t) (w.used (home t) ++ [c]),
                   counted := Function.update w.counted t (w.counted t ++ [c]) }
      | none =>
          -- a call that begins to announce has counted nothing
          if ((w.net (home t)).app t).publishing = none then
            { w with net := w', counted := Function.update w.counted t [] }
          else { w with net := w' }
  | _ => { w with net := w' }

/-- One step of the network, with its histories. -/
def step (ext : N → Cliid) (home : τ → N) (hwm : Nat) (w : Publication N τ) (l : NetLabel N τ) :
    Option (Publication N τ) :=
  (netStep ext home hwm w.net l).map fun w' => w.record home w' l

/-- **A call of `init_pub` that is about to return 0 has its subscribers**: at least as many
distinct nodes as it asked for have subscribed to its group and received its node's `pub_hello`
published on that group. -/
def EnoughSubscribers (ext : N → Cliid) (home : τ → N) (w : Publication N τ) : Prop :=
  ∀ t gid numSubs nsubs, (w.net (home t)).app t = .announce gid numSubs nsubs → numSubs ≤ nsubs →
    ∃ nodes : List N, nodes.Nodup ∧ numSubs ≤ nodes.length ∧ ∀ b ∈ nodes,
      gid ∈ (w.net b).subGroups ∧
        (gid, Msg.mk (pubHello (nodeKey ext (home t))) .comm) ∈ w.got b

/-- Every reply that a call of `init_pub` takes from `suberq` answers an announcement of its group.
-/
def OwnReplies (ext : N → Cliid) (home : τ → N) (w : Publication N τ) : NetLabel N τ → Prop
  | .app t l => ∀ gid c, (w.net (home t)).takesReply t l = some (gid, c) →
      ∀ b, nodeKey ext b = c → w.answered b (nodeKey ext (home t)) = some gid
  | _ => True

end Publication

/-- The payloads of the applications do not pass for handshake messages: what a comm thread sends on
of one passed to `send` is not a `sub_hello`, and of one passed to `publish`, when it is sent on at
all, it neither begins with `pub_hello` nor is a beginning of it. -/
def NoImitation : NetLabel N τ → Prop
  | .app _ (.send _ data) => forwarded data ≠ commHandlerSubInit
  | .app _ (.publish _ data) => recvLen data < 0 ∨
      ¬ commHandlerPubInit <+: forwarded data ∧ ¬ forwarded data <+: commHandlerPubInit
  | _ => True

/-! ## The invariant -/

/-- What is on the SUB socket and begins like an announcement is one, when no payload imitates it.
-/
theorem Sourced.announcement {key : N → Cliid} {home : τ → N} {ls : List (NetLabel N τ)} {n : N}
    {s : CommHandler τ} (hs : Sourced key home ls n s) (hpay : ∀ l ∈ ls, NoImitation l) {gid : Cliid}
    {m : Msg τ} {q : List (Cliid × Msg τ)} {behind : Bytes} (hq : s.subSock = (gid, m) :: q)
    (htake : (m.data ++ behind).take commHandlerPubInit.length = commHandlerPubInit) :
    ∃ a, m = ⟨pubHello (key a), .comm⟩ := by
  obtain ⟨a, hfrom⟩ := hs.arrived (gid, m) (hq ▸ List.mem_cons_self)
  cases hfrom with
  | announcement ho hd =>
      obtain ⟨data, origin⟩ := m
      cases ho
      cases hd
      exact ⟨a, rfl⟩
  | published hfrom hlen hm =>
      obtain ⟨t, -, -, hmem⟩ := hfrom
      obtain ⟨hbegins, hbeginning⟩ := (hpay _ hmem).resolve_left hlen
      rw [← Msg.forwarded_data, ← show m = _ from hm] at hbegins hbeginning
      have hpre : commHandlerPubInit <+: m.data ++ behind := by
        rw [← htake]
        exact List.take_prefix _ _
      rcases List.prefix_or_prefix_of_prefix hpre (List.prefix_append m.data behind) with h | h
      · exact absurd h hbegins
      · exact absurd h hbeginning

namespace Publication

/-- What the current call of `init_pub` of thread `t` has counted: replies its node took, as many as
`nsubs`, each of a node that answered an announcement of the call's group. -/
structure Counted (ext : N → Cliid) (home : τ → N) (w : Publication N τ) (t : τ) : Prop where
  taken : (w.counted t).Sublist (w.used (home t))
  counting : ∀ gid numSubs nsubs, ((w.net (home t)).app t).publishing = some (gid, numSubs, nsubs) →
    ((w.counted t).length : Int) = nsubs ∧
      ∀ c ∈ w.counted t, ∃ b, nodeKey ext b = c ∧ w.answered b (nodeKey ext (home t)) = some gid

/-- The invariant of a publication. -/
structure Inv (ext : N → Cliid) (home : τ → N) (ls : List (NetLabel N τ)) (w : Publication N τ) :
    Prop where
  sourced : ∀ n, Sourced (nodeKey ext) home ls n (w.net n)
  groups : ∀ n, (w.net n).Grouped
  subers : ∀ n, ∀ c ∈ (w.net n).suberKeys, ∃ b, nodeKey ext b = c
  known : ∀ n pid, w.answered n pid ≠ none → (w.net n).publishermap pid ≠ none
  heard : ∀ n p gid, w.answered n (nodeKey ext p) = some gid →
    gid ∈ (w.net n).subGroups ∧ (gid, Msg.mk (pubHello (nodeKey ext p)) .comm) ∈ w.got n
  budget : ∀ b p, (w.net b).repliesOut (nodeKey ext p) + (w.net p).repliesIn (nodeKey ext b) +
    (w.used p).count (nodeKey ext b) ≤ (w.net b).replied (nodeKey ext p)
  calls : ∀ t, w.Counted ext home t

section

variable {ext : N → Cliid} {home : τ → N} {hwm : Nat} {ls : List (NetLabel N τ)}
  {w : Publication N τ}

theorem inv_init (acceptConns : N → Bool) : Inv ext home ls (init τ ext acceptConns) where
  sourced := sourced_init acceptConns
  groups n e he := by cases he
  subers n c hc := by cases hc
  known n pid h := absurd rfl h
  heard n p gid h := by cases h
  budget b p := Nat.zero_le _
  calls t := ⟨List.Sublist.refl _, fun gid numSubs nsubs h => by cases h⟩

/-- A step that leaves the replies, the publishers and the calls of every node as they are. -/
theorem Inv.quiet (hw : Inv ext home ls w) {net' : N → CommHandler τ}
    (hsourced : ∀ n, Sourced (nodeKey ext) home ls n (net' n))
    (hgroups : ∀ n, (net' n).Grouped) (hsame : ∀ n, (w.net n).Undisturbed (net' n)) :
    Inv ext home ls { w with net := net' } where
  sourced := hsourced
  groups := hgroups
  subers n c hc := by
    exact hw.subers n c ((hsame n).suberKeys_subset (.inl (hsame n).suberPipes) hc)
  known n pid h := by
    rw [show (net' n).publishermap = _ from (hsame n).publishermap]
    exact hw.known n pid h
  heard n p gid h := by
    rw [show (net' n).subGroups = _ from (hsame n).subGroups]
    exact hw.heard n p gid h
  budget b p := by
    have hin := (hsame p).repliesIn_le (.inl (hsame p).suberPipes) (nodeKey ext b)
    have hbudget := hw.budget b p
    simp only [CommHandler.repliesOut, CommHandler.replied, (hsame b).routerOut,
      (hsame b).publishermap] at hbudget ⊢
    omega
  calls t := by
    refine ⟨(hw.calls t).taken, ?_⟩
    show ∀ gid numSubs nsubs, ((net' (home t)).app t).publishing = some (gid, numSubs, nsubs) → _
    rw [(hsame (home t)).app]
    exact (hw.calls t).counting

/-- What a step of a comm thread records of the answers: nothing, or the one it gives. -/
theorem answered_comm (net' : N → CommHandler τ) (n : N) (l : CommLabel τ) (b : N) (pid : Cliid) :
    (w.record home net' (.comm n l)).answered b pid = w.answered b pid ∨
    ∃ gid, b = n ∧ (w.net n).answers l = some (pid, gid) ∧
      (w.record home net' (.comm n l)).answered b pid = some gid := by
  simp only [record]
  cases hans : (w.net n).answers l with
  | none => exact .inl rfl
  | some e =>
      obtain ⟨pid', gid⟩ := e
      by_cases hb : b = n
      · subst hb
        by_cases hp : pid = pid'
        · subst hp
          exact .inr ⟨gid, rfl, rfl, by simp⟩
        · exact .inl (by simp [hp])
      · exact .inl (by simp [hb])

/-- An answer stays on record: a publisher is answered once. -/
theorem Inv.answered_of_answered (hw : Inv ext home ls w) {n : N} {l : CommLabel τ}
    {s' : CommHandler τ} (hs : (w.net n).commStep hwm l = some s') (net' : N → CommHandler τ) {b : N}
    {pid gid : Cliid} (h : w.answered b pid = some gid) :
    (w.record home net' (.comm n l)).answered b pid = some gid := by
  rcases answered_comm net' n l b pid with hold | ⟨gid', rfl, ha, -⟩
  · rw [hold, h]
  · have hnone := (CommHandler.commStep_answers hs ha).1
    exact absurd hnone (hw.known b pid (by simp [h]))

/-- What a node takes from its SUB socket is added to what it got. -/
theorem mem_got_comm {net' : N → CommHandler τ} {n : N} {l : CommLabel τ} {b : N}
    {e : Cliid × Msg τ} (h : e ∈ w.got b ∨ b = n ∧ e ∈ (w.net n).takesSub l) :
    e ∈ (w.record home net' (.comm n l)).got b := by
  by_cases hb : b = n
  · subst hb
    simp only [record, Function.update_self, List.mem_append]
    exact h.imp id And.right
  · simp only [record, Function.update_of_ne hb]
    exact h.resolve_right fun h => hb h.1

/-- An announcement that is answered is genuine and came in on a subscribed group. -/
theorem Inv.answers_announcement (hw : Inv ext home ls w) (hpay : ∀ l ∈ ls, NoImitation l) {n : N}
    {l : CommLabel τ} {s' : CommHandler τ} (hs : (w.net n).commStep hwm l = some s') {pid gid : Cliid}
    (ha : (w.net n).answers l = some (pid, gid)) :
    gid ∈ (w.net n).subGroups ∧ (gid, Msg.mk (pubHello pid) .comm) ∈ (w.net n).takesSub l := by
  obtain ⟨-, -, behind, junk, m, q, hq, htakes, htake, hpid⟩ := CommHandler.commStep_answers hs ha
  obtain ⟨a, rfl⟩ := (hw.sourced n).announcement hpay hq htake
  rw [pubId_pubHello] at hpid
  refine ⟨hw.groups n (gid, _) (hq ▸ List.mem_cons_self), ?_⟩
  rw [htakes, hpid]
  exact List.mem_cons_self

/-- **A step of a comm thread keeps the invariant**: it answers a publisher once, and only an
announcement that came in on a subscribed group. -/
theorem Inv.comm (hw : Inv ext home ls w) (hpay : ∀ l ∈ ls, NoImitation l) {n : N} {l : CommLabel τ}
    {s' : CommHandler τ} (hs : (w.net n).commStep hwm l = some s')
    (hsourced : ∀ x, Sourced (nodeKey ext) home ls x (Function.update w.net n s' x)) :
    Inv ext home ls (w.record home (Function.update w.net n s') (.comm n l)) := by
  have hqueue : ∀ e ∈ (w.net n).msgq, forwarded e.2.2.data ≠ commHandlerSubInit := by
    intro e he
    obtain ⟨t, x, -, -, -, hmem⟩ := (hw.sourced n).queued e he
    exact hpay _ hmem
  have hgroups := CommHandler.commStep_groups (hw.groups n) hs
  have hgrow : ∀ x, (w.net x).subGroups ⊆ (Function.update w.net n s' x).subGroups := by
    intro x
    exact forall_update (P := fun x s => (w.net x).subGroups ⊆ s.subGroups)
      (fun x => List.Subset.refl _) n hgroups.2 x
  refine ⟨hsourced, ?_, ?_, ?_, ?_, ?_, ?_⟩
  · exact forall_update hw.groups n hgroups.1
  · refine forall_update (P := fun _ s => ∀ c ∈ s.suberKeys, ∃ b, nodeKey ext b = c) hw.subers n ?_
    intro c hc
    rcases CommHandler.commStep_suberKeys hs hc with hc | ⟨m, hm⟩
    · exact hw.subers n c hc
    · obtain ⟨a, ha, -⟩ := (hw.sourced n).inbox _ hm
      exact ⟨a, ha.symm⟩
  · intro b pid h
    rcases answered_comm (Function.update w.net n s') n l b pid with hold | ⟨gid, rfl, ha, -⟩
    · rw [hold] at h
      exact forall_update (P := fun x s => w.answered x pid ≠ none → s.publishermap pid ≠ none)
        (fun x => hw.known x pid) n
        (fun h => CommHandler.commStep_publishermap hs (hw.known n pid h)) b h
    · simp only [record, Function.update_self]
      exact (CommHandler.commStep_answers hs ha).2.1
  · intro b p gid h
    rcases answered_comm (Function.update w.net n s') n l b (nodeKey ext p) with
      hold | ⟨gid', rfl, ha, hnew⟩
    · rw [hold] at h
      obtain ⟨hgid, hgot⟩ := hw.heard b p gid h
      exact ⟨hgrow b hgid, mem_got_comm (.inl hgot)⟩
    · rw [hnew, Option.some.injEq] at h
      subst h
      obtain ⟨hgid, htakes⟩ := hw.answers_announcement hpay hs ha
      exact ⟨hgrow b hgid, mem_got_comm (.inr ⟨rfl, htakes⟩)⟩
  · intro b p
    have hout := forall_update (w := w.net)
      (P := fun x s => s.repliesOut (nodeKey ext p) + (w.net x).replied (nodeKey ext p) ≤
        (w.net x).repliesOut (nodeKey ext p) + s.replied (nodeKey ext p))
      (fun x => le_rfl) n (CommHandler.commStep_repliesOut hqueue hs (nodeKey ext p)) b
    have hin := forall_update (w := w.net)
      (P := fun x s => s.repliesIn (nodeKey ext b) ≤ (w.net x).repliesIn (nodeKey ext b))
      (fun x => le_rfl) n
      (CommHandler.commStep_repliesIn (hw.sourced n).short hs (nodeKey ext b)) p
    have hbudget := hw.budget b p
    simp only [record]
    omega
  · intro t
    refine ⟨(hw.calls t).taken, ?_⟩
    intro gid numSubs nsubs hpc
    have happ : (Function.update w.net n s' (home t)).app = (w.net (home t)).app :=
      forall_update (w := w.net) (P := fun x s => s.app = (w.net x).app) (fun x => rfl) n
        (CommHandler.commStep_app hs) (home t)
    simp only [record] at hpc
    rw [happ] at hpc
    obtain ⟨hlen, hall⟩ := (hw.calls t).counting gid numSubs nsubs hpc
    refine ⟨hlen, ?_⟩
    intro c hc
    obtain ⟨b, hb, ha⟩ := hall c hc
    exact ⟨b, hb, hw.answered_of_answered hs _ ha⟩

/-- A step of thread `t` keeps the invariant when its node pays for every reply it takes and the
calls count what was taken. -/
theorem Inv.app (hw : Inv ext home ls w) {t : τ} {s' : CommHandler τ} {used : N → List Cliid}
    {counted : τ → List Cliid}
    (hsourced : ∀ x, Sourced (nodeKey ext) home ls x (Function.update w.net (home t) s' x))
    (hwires : (w.net (home t)).SameWires s') (hsub : s'.subSock = (w.net (home t)).subSock)
    (hsubers : s'.suberKeys ⊆ (w.net (home t)).suberKeys)
    (hused : ∀ p, p ≠ home t → used p = w.used p)
    (hbudget : ∀ c, s'.repliesIn c + (used (home t)).count c ≤
      (w.net (home t)).repliesIn c + (w.used (home t)).count c)
    (hcalls : ∀ u, Counted ext home
      ⟨Function.update w.net (home t) s', w.got, w.answered, used, counted⟩ u) :
    Inv ext home ls ⟨Function.update w.net (home t) s', w.got, w.answered, used, counted⟩ := by
  have hsame : ∀ x, (Function.update w.net (home t) s' x).publishermap = (w.net x).publishermap ∧
      (Function.update w.net (home t) s' x).subGroups = (w.net x).subGroups ∧
      (Function.update w.net (home t) s' x).routerOut = (w.net x).routerOut :=
    forall_update (P := fun x s => s.publishermap = (w.net x).publishermap ∧
      s.subGroups = (w.net x).subGroups ∧ s.routerOut = (w.net x).routerOut)
      (fun x => ⟨rfl, rfl, rfl⟩) (home t) ⟨hwires.publishermap, hwires.subGroups, hwires.routerOut⟩
  refine ⟨hsourced, ?_, ?_, ?_, ?_, ?_, hcalls⟩
  · refine forall_update hw.groups (home t) ?_
    intro e he
    rw [hsub] at he
    rw [hwires.subGroups]
    exact hw.groups (home t) e he
  · exact forall_update (P := fun _ s => ∀ c ∈ s.suberKeys, ∃ b, nodeKey ext b = c) hw.subers (home t)
      fun c hc => hw.subers (home t) c (hsubers hc)
  · intro n pid h
    simp only [(hsame n).1]
    exact hw.known n pid h
  · intro n p gid h
    simp only [(hsame n).2.1]
    exact hw.heard n p gid h
  · intro b p
    have hold := hw.budget b p
    simp only [CommHandler.repliesOut, CommHandler.replied, (hsame b).1, (hsame b).2.2] at hold ⊢
    by_cases hp : p = home t
    · subst hp
      have hpaid := hbudget (nodeKey ext b)
      simp only [Function.update_self]
      omega
    · rw [Function.update_of_ne hp, hused p hp]
      exact hold

/-- The calls of the other threads, of this node or of others, are where they were. -/
theorem app_of_ne {t u : τ} (hu : u ≠ t) {l : AppLabel} {s' : CommHandler τ}
    (hs : (w.net (home t)).appStep t l = some s') :
    (Function.update w.net (home t) s' (home u)).app u = (w.net (home u)).app u := by
  obtain ⟨⟨pc, hupd⟩, -⟩ := CommHandler.appStep_lock hs
  refine forall_update (w := w.net) (P := fun x s => s.app u = (w.net x).app u) (fun x => rfl)
    (home t) ?_ (home u)
  rw [hupd, Function.update_of_ne hu]

/-- What the calls have counted after thread `t` counted the reply of `c`, which answers an
announcement of its group. -/
theorem Inv.counted_reply (hw : Inv ext home ls w) {t : τ} {l : AppLabel} {s' : CommHandler τ}
    (hs : (w.net (home t)).appStep t l = some s') {gid c : Cliid} {numSubs nsubs : Int}
    (hpub : ((w.net (home t)).app t).publishing = some (gid, numSubs, nsubs))
    (hpub' : (s'.app t).publishing = some (gid, numSubs, nsubs + 1))
    (hc : ∃ b, nodeKey ext b = c ∧ w.answered b (nodeKey ext (home t)) = some gid) (u : τ) :
    Counted ext home ⟨Function.update w.net (home t) s', w.got, w.answered,
      Function.update w.used (home t) (w.used (home t) ++ [c]),
      Function.update w.counted t (w.counted t ++ [c])⟩ u := by
  by_cases hu : u = t
  · subst hu
    obtain ⟨hlen, hall⟩ := (hw.calls u).counting gid numSubs nsubs hpub
    constructor
    · simp only [Function.update_self]
      exact (hw.calls u).taken.append (List.Sublist.refl _)
    · intro gid' numSubs' nsubs' hpc
      simp only [Function.update_self] at hpc ⊢
      rw [hpub'] at hpc
      cases hpc
      refine ⟨by simp [hlen], ?_⟩
      intro x hx
      rcases List.mem_append.mp hx with hx | hx
      · exact hall x hx
      · rw [List.mem_singleton.mp hx]
        exact hc
  · constructor
    · simp only [Function.update_of_ne hu]
      refine (hw.calls u).taken.trans ?_
      by_cases hhome : home u = home t
      · rw [hhome, Function.update_self]
        exact List.sublist_append_left _ _
      · rw [Function.update_of_ne hhome]
    · simp only [app_of_ne hu hs, Function.update_of_ne hu]
      exact (hw.calls u).counting

/-- What the calls have counted after a step that counts nothing: a call that begins starts anew. -/
theorem Inv.counted_quiet (hw : Inv ext home ls w) {t : τ} {l : AppLabel} {s' : CommHandler τ}
    (hs : (w.net (home t)).appStep t l = some s')
    (hpub : ∀ gid numSubs nsubs, (s'.app t).publishing = some (gid, numSubs, nsubs) →
      ((w.net (home t)).app t).publishing = some (gid, numSubs, nsubs) ∨
        ((w.net (home t)).app t).publishing = none ∧ nsubs = 0) (u : τ) :
    Counted ext home ⟨Function.update w.net (home t) s', w.got, w.answered, w.used,
      if ((w.net (home t)).app t).publishing = none then Function.update w.counted t []
      else w.counted⟩ u := by
  by_cases hu : u = t
  · subst hu
    constructor
    · by_cases hnone : ((w.net (home u)).app u).publishing = none
      · simp [hnone]
      · simpa only [hnone, if_false] using (hw.calls u).taken
    · intro gid numSubs nsubs hpc
      simp only [Function.update_self] at hpc
      rcases hpub gid numSubs nsubs hpc with hpre | ⟨hnone, rfl⟩
      · simp only [hpre, reduceCtorEq, if_false]
        exact (hw.calls u).counting gid numSubs nsubs hpre
      · simp [hnone]
  · have hcounted : (if ((w.net (home t)).app t).publishing = none
        then Function.update w.counted t [] else w.counted) u = w.counted u := by
      split_ifs
      · rw [Function.update_of_ne hu]
      · rfl
    constructor
    · simp only [hcounted]
      exact (hw.calls u).taken
    · simp only [app_of_ne hu hs, hcounted]
      exact (hw.calls u).counting

/-- **A step of an application thread keeps the invariant**, when a reply it takes answers an
announcement of the group of its call. -/
theorem Inv.appStep (hw : Inv ext home ls w) {t : τ} {l : AppLabel} {s' : CommHandler τ}
    (hok : OwnReplies ext home w (.app t l)) (hs : (w.net (home t)).appStep t l = some s')
    (hsourced : ∀ x, Sourced (nodeKey ext) home ls x (Function.update w.net (home t) s' x)) :
    Inv ext home ls (w.record home (Function.update w.net (home t) s') (.app t l)) := by
  obtain ⟨hwires, hsub⟩ := CommHandler.appStep_sameWires hs
  rcases CommHandler.appStep_publishing hs with
    ⟨gid, c, numSubs, nsubs, m, htakes, hpub, hpub', hpop⟩ | ⟨htakes, hq, hpub⟩
  · simp only [record, htakes]
    have hcount := hwires.suberKeys_pop hpop
    have hmem : c ∈ (w.net (home t)).suberKeys := by
      rw [← List.count_pos_iff, hcount c]
      simp
    obtain ⟨b, hb⟩ := hw.subers (home t) c hmem
    refine hw.app hsourced hwires hsub (hwires.suberKeys_subset (.inr ⟨t, _, hpop⟩)) ?_ ?_ ?_
    · intro p hp
      exact Function.update_of_ne hp _ _
    · intro x
      rw [CommHandler.repliesIn, CommHandler.repliesIn, hwires.routerIn, hcount x,
        Function.update_self, List.count_append, List.count_singleton]
      simp only [beq_iff_eq]
      omega
    · exact hw.counted_reply hs hpub hpub' ⟨b, hb, hok gid c htakes b hb⟩
  · have hrec : w.record home (Function.update w.net (home t) s') (.app t l) =
        ⟨Function.update w.net (home t) s', w.got, w.answered, w.used,
          if ((w.net (home t)).app t).publishing = none then Function.update w.counted t []
          else w.counted⟩ := by
      simp only [record, htakes]
      split_ifs <;> rfl
    rw [hrec]
    have hq' : s'.suberPipes = (w.net (home t)).suberPipes ∨
        ∃ u x, pop u (w.net (home t)).suberPipes = some (x, s'.suberPipes) :=
      hq.imp id fun hpop => ⟨t, hpop⟩
    refine hw.app hsourced hwires hsub (hwires.suberKeys_subset hq') (fun p _ => rfl) ?_ ?_
    · intro c
      exact Nat.add_le_add_right (hwires.repliesIn_le hq' c) _
    · exact hw.counted_quiet hs hpub

/-- A message carried over from `a` to `b` leaves the replies under way between two nodes as many as
they were. -/
theorem replies_transfer (hinj : Function.Injective (nodeKey ext)) {net net' : N → CommHandler τ}
    {a b : N} {m : Msg τ} {q : List (Cliid × Msg τ)} (hne : a ≠ b)
    (hpop : pop (nodeKey ext b) (net a).routerOut = some (m, q))
    (hnet : net' = Function.update (Function.update net a { net a with routerOut := q }) b
      ((net b).envStep (.arrive (nodeKey ext a) m))) (x p : N) :
    (net' x).repliesOut (nodeKey ext p) + (net' p).repliesIn (nodeKey ext x) =
      (net x).repliesOut (nodeKey ext p) + (net p).repliesIn (nodeKey ext x) := by
  have ha : net' a = { net a with routerOut := q } := by
    rw [hnet, Function.update_of_ne hne, Function.update_self]
  have hb : net' b = (net b).envStep (.arrive (nodeKey ext a) m) := by
    rw [hnet, Function.update_self]
  have hother : ∀ y, y ≠ a → y ≠ b → net' y = net y := by
    intro y hya hyb
    rw [hnet, Function.update_of_ne hyb, Function.update_of_ne hya]
  have hout : (net x).repliesOut (nodeKey ext p) = (net' x).repliesOut (nodeKey ext p) +
      if x = a ∧ p = b ∧ m.data = commHandlerSubInit then 1 else 0 := by
    by_cases hx : x = a
    · subst hx
      have hpop' : pop (nodeKey ext b) (net x).routerOut = some (m, (net' x).routerOut) := by
        rw [ha]
        exact hpop
      rw [CommHandler.repliesOut_pop hpop' (nodeKey ext p)]
      simp only [hinj.eq_iff, true_and, eq_comm]
    · have hsame : (net' x).routerOut = (net x).routerOut := by
        by_cases hxb : x = b
        · rw [hxb, hb]
          rfl
        · rw [hother x hx hxb]
      rw [CommHandler.repliesOut, CommHandler.repliesOut, hsame, if_neg fun h => hx h.1,
        Nat.add_zero]
  have hin : (net' p).repliesIn (nodeKey ext x) = (net p).repliesIn (nodeKey ext x) +
      if x = a ∧ p = b ∧ m.data = commHandlerSubInit then 1 else 0 := by
    by_cases hp : p = b
    · subst hp
      rw [hb, CommHandler.repliesIn_arrive]
      simp only [hinj.eq_iff, true_and, eq_comm]
    · have hsame : (net' p).repliesIn = (net p).repliesIn := by
        by_cases hpa : p = a
        · rw [hpa, ha]
          rfl
        · rw [hother p hpa hp]
      rw [hsame, if_neg fun h => hp h.2.1, Nat.add_zero]
  omega

/-- **A message carried over keeps the invariant**: a reply leaves `a` and comes in at `b`. -/
theorem Inv.transfer (hw : Inv ext home ls w) (hinj : Function.Injective (nodeKey ext)) {a b : N}
    {m : Msg τ} {q : List (Cliid × Msg τ)} (hne : a ≠ b)
    (hpop : pop (nodeKey ext b) (w.net a).routerOut = some (m, q)) {net' : N → CommHandler τ}
    (hnet : net' = Function.update (Function.update w.net a { w.net a with routerOut := q }) b
      ((w.net b).envStep (.arrive (nodeKey ext a) m)))
    (hsourced : ∀ n, Sourced (nodeKey ext) home ls n (net' n)) :
    Inv ext home ls { w with net := net' } := by
  have hrefl : ∀ x, (w.net x).OnlyRouter (w.net x) := fun x => ⟨rfl, rfl, rfl, rfl, rfl⟩
  have hsame : ∀ x, (w.net x).OnlyRouter (net' x) := by
    rw [hnet]
    refine forall_update (forall_update hrefl a ?_) b ?_
    · exact ⟨rfl, rfl, rfl, rfl, rfl⟩
    · exact ⟨rfl, rfl, rfl, rfl, rfl⟩
  refine ⟨hsourced, ?_, ?_, ?_, ?_, ?_, ?_⟩
  · intro n e he
    simp only [(hsame n).subGroups, (hsame n).subSock] at he ⊢
    exact hw.groups n e he
  · intro n c hc
    simp only [(hsame n).suberKeys] at hc
    exact hw.subers n c hc
  · intro n pid h
    simp only [(hsame n).publishermap]
    exact hw.known n pid h
  · intro n p gid h
    simp only [(hsame n).subGroups]
    exact hw.heard n p gid h
  · intro x p
    have hsum := replies_transfer hinj hne hpop hnet x p
    have hbudget := hw.budget x p
    simp only [CommHandler.replied, (hsame x).publishermap] at hbudget ⊢
    omega
  · intro t
    refine ⟨(hw.calls t).taken, ?_⟩
    simp only [(hsame (home t)).app]
    exact (hw.calls t).counting

/-- **Every step at which no foreign reply is taken keeps the invariant.** -/
theorem inv_step (hinj : Function.Injective (nodeKey ext)) (hpay : ∀ l ∈ ls, NoImitation l)
    {l : NetLabel N τ} {w' : Publication N τ} (hl : l ∈ ls) (hw : Inv ext home ls w)
    (hok : OwnReplies ext home w l) (h : step ext home hwm w l = some w') : Inv ext home ls w' := by
  obtain ⟨net', hnet, rfl⟩ := Option.map_eq_some_iff.mp h
  have hsourced := sourced_step hl hw.sourced hnet
  have hrefl : ∀ n, (w.net n).Undisturbed (w.net n) := fun n => .refl _
  cases netTrans_of_netStep hnet with
  | comm hs => exact hw.comm hpay hs hsourced
  | app hs => exact hw.appStep hok hs hsourced
  | ctor hs =>
      refine hw.quiet hsourced (forall_update hw.groups _ (hw.groups _)) (forall_update hrefl _ ?_)
      exact ⟨⟨rfl, rfl, rfl, rfl, rfl⟩, rfl, rfl⟩
  | monitor =>
      refine hw.quiet hsourced (forall_update hw.groups _ (hw.groups _)) (forall_update hrefl _ ?_)
      exact ⟨⟨rfl, rfl, rfl, rfl, rfl⟩, rfl, rfl⟩
  | linkUp hne hnamed =>
      rename_i a b
      refine hw.quiet hsourced ?_ (forall_update (forall_update hrefl a ?_) b ?_)
      · exact forall_update₂ hw.groups a b (hw.groups a) (hw.groups b)
      · exact ⟨⟨rfl, rfl, rfl, rfl, rfl⟩, rfl, rfl⟩
      · exact ⟨⟨rfl, rfl, rfl, rfl, rfl⟩, rfl, rfl⟩
  | transfer hne hpop => exact hw.transfer hinj hne hpop rfl hsourced
  | multicast hpub hsub =>
      rename_i a b gid m
      refine hw.quiet hsourced (forall_update hw.groups b ?_) (forall_update hrefl b ?_)
      · apply forall_mem_concat (hw.groups b)
        exact hsub
      · exact ⟨⟨rfl, rfl, rfl, rfl, rfl⟩, rfl, rfl⟩

/-- A call counts a node at most once. -/
theorem Inv.counted_nodup (hw : Inv ext home ls w) {t : τ} {gid : Cliid} {numSubs nsubs : Int}
    (hpub : ((w.net (home t)).app t).publishing = some (gid, numSubs, nsubs)) :
    (w.counted t).Nodup := by
  rw [List.nodup_iff_count_le_one]
  intro c
  by_cases hc : c ∈ w.counted t
  · obtain ⟨b, rfl, -⟩ := ((hw.calls t).counting gid numSubs nsubs hpub).2 c hc
    have hbudget := hw.budget b (home t)
    have hcount := (hw.calls t).taken.count_le (nodeKey ext b)
    have hreplied : (w.net b).replied (nodeKey ext (home t)) ≤ 1 := by
      rw [CommHandler.replied]
      split_ifs <;> omega
    omega
  · rw [List.count_eq_zero_of_not_mem hc]
    exact Nat.zero_le 1

/-- In a state of the invariant a call that is about to return 0 has its subscribers. -/
theorem Inv.enoughSubscribers (hw : Inv ext home ls w) (hinj : Function.Injective (nodeKey ext)) :
    w.EnoughSubscribers ext home := by
  intro t gid numSubs nsubs hpc hle
  have hpub : ((w.net (home t)).app t).publishing = some (gid, numSubs, nsubs) := by
    rw [hpc]
    rfl
  obtain ⟨hlen, hall⟩ := (hw.calls t).counting gid numSubs nsubs hpub
  have hrange : w.counted t ∈ Set.range (List.map (nodeKey ext)) := by
    rw [Set.range_list_map]
    intro c hc
    obtain ⟨b, hb, -⟩ := hall c hc
    exact ⟨b, hb⟩
  obtain ⟨nodes, hnodes⟩ := hrange
  refine ⟨nodes, ?_, ?_, ?_⟩
  · refine List.Nodup.of_map (nodeKey ext) ?_
    rw [hnodes]
    exact hw.counted_nodup hpub
  · rw [← hlen, ← hnodes, List.length_map] at hle
    exact hle
  · intro b hb
    have hmem : nodeKey ext b ∈ w.counted t := by
      rw [← hnodes]
      exact List.mem_map_of_mem hb
    obtain ⟨b', hb', ha⟩ := hall _ hmem
    rw [hinj hb'] at ha
    exact hw.heard b (home t) gid ha

end

/-- **A call of `init_pub` has enough subscribers of its own group in the runs in which every reply
it takes answers an announcement of that group.** Any set of nodes with distinct identities, any
calls of any threads for any groups, any interleaving, any message lost or refused; no payload
imitates a handshake message. -/
theorem initPub_enough (ext : N → Cliid) (hinj : Function.Injective (nodeKey ext)) (home : τ → N)
    (hwm : Nat) (acceptConns : N → Bool) (ls : List (NetLabel N τ)) (hpay : ∀ l ∈ ls, NoImitation l)
    (hok : Meets (step ext home hwm) (OwnReplies ext home) (init τ ext acceptConns) ls)
    (w : Publication N τ)
    (hrun : exec (step ext home hwm) (init τ ext acceptConns) ls = some w) :
    w.EnoughSubscribers ext home := by
  have hmem : Meets (step ext home hwm) (fun _ l => l ∈ ls) (init τ ext acceptConns) ls :=
    meets_of_forall_mem fun l hl _ => hl
  have hstep : ∀ (v : Publication N τ) (l : NetLabel N τ) (v' : Publication N τ),
      Inv ext home ls v → OwnReplies ext home v l ∧ l ∈ ls → step ext home hwm v l = some v' →
      Inv ext home ls v' := fun v l v' hv hl h => inv_step hinj hpay hl.2 hv hl.1 h
  exact (exec_invariant_of_meets hstep (inv_init acceptConns) (hok.and hmem) hrun).enoughSubscribers
    hinj

instance [Fintype N] (ext : N → Cliid) (home : τ → N) (w : Publication N τ) :
    ∀ l, Decidable (OwnReplies ext home w l)
  | .app t l =>
      match h : (w.net (home t)).takesReply t l with
      | some (gid, c) => decidable_of_iff
          (∀ b, nodeKey ext b = c → w.answered b (nodeKey ext (home t)) = some gid)
          (by simp [OwnReplies, h])
      | none => isTrue (by simp [OwnReplies, h])
  | .comm _ _ | .ctor _ _ | .monitor _ _ | .linkUp _ _ | .transfer _ _ | .multicast _ _ _ _ =>
      isTrue trivial

instance : ∀ l : NetLabel N τ, Decidable (NoImitation l)
  | .app _ (.send _ data) => inferInstanceAs (Decidable (forwarded data ≠ commHandlerSubInit))
  | .app _ (.publish _ data) => inferInstanceAs (Decidable (recvLen data < 0 ∨
      ¬ commHandlerPubInit <+: forwarded data ∧ ¬ forwarded data <+: commHandlerPubInit))
  | .app _ (.connectTo _ _ _) | .app _ (.initPub _ _ _ _) | .app _ (.subscribeTo _ _ _)
  | .app _ .lock | .app _ (.sendReq _) | .app _ .relock | .app _ .unlock | .app _ .announce
  | .app _ .announced | .app _ .drain | .app _ .recv | .app _ .recvDone | .app _ .recvAsync
  | .app _ .getOneConnection | .app _ .pop | .app _ .shutdown | .app _ .join | .app _ .test
  | .comm _ _ | .ctor _ _ | .monitor _ _ | .linkUp _ _ | .transfer _ _ | .multicast _ _ _ _ =>
      isTrue trivial

/-- The external ids of two nodes, the publisher being `true`. -/
def pairId : Bool → Cliid := fun b => if b then 3 else 2

/-- Threads 0 and 1 run at the publisher, thread 2 at the subscriber. -/
def pairHome : Fin 3 → Bool := fun t => t ≠ 2

/-- Both nodes are constructed, node 2 connects to node 3 and subscribes to its group 7. -/
def subscribed : List (NetLabel Bool (Fin 3)) :=
  [.comm false (.startup true), .comm false (.startup true), .comm false (.startup true),
    .ctor false .relock, .ctor false .unlock,
    .comm true (.startup true), .comm true (.startup true), .comm true (.startup true),
    .comm true (.startup true), .ctor true .relock, .ctor true .unlock,
    .app 2 (.connectTo [104] [49] 3), .app 2 .lock, .app 2 (.sendReq true), .comm false (.poll true),
    .comm false (.conn 2 [0] true), .linkUp false true, .comm false (.hello true), .app 2 .relock,
    .app 2 .unlock, .app 2 .test,
    .app 2 (.subscribeTo [104] [50] [7]), .app 2 .lock, .app 2 (.sendReq true),
    .comm false (.poll true), .comm false (.sub 2 [0] 0 none)]

/-- Thread 1 calls `init_pub` for group 7 and one subscriber, and takes the reply of node 2. -/
def oneGroup : List (NetLabel Bool (Fin 3)) :=
  [.app 1 (.initPub [104] [50] 7 1), .app 1 .lock, .app 1 (.sendReq true), .comm true (.poll true),
    .comm true (.pubStart 1 [0] true), .app 1 .relock, .app 1 .unlock, .app 1 .announce,
    .comm true (.poll true), .comm true (.pubSend 1 true),
    .multicast true false 7 ⟨pubHello (ide2i 3), .comm⟩, .comm false (.poll true),
    .comm false (.subSock [] 0 true), .app 1 .announced, .transfer false true, .transfer false true,
    .comm true (.poll true), .comm true (.router (ide2i 2)), .comm true (.poll true),
    .comm true (.router (ide2i 2)), .comm true (.push (some 1)), .app 1 .drain, .app 1 .drain]

/-- Thread 0 calls `init_pub` for group 8 and has the first socket on `suberq`; then thread 1 calls
it for group 7, each for one subscriber. The reply of node 2 to the announcement of group 7 goes to
thread 0. -/
def twoGroups : List (NetLabel Bool (Fin 3)) :=
  [.app 0 (.initPub [104] [50] 8 1), .app 0 .lock, .app 0 (.sendReq true), .comm true (.poll true),
    .comm true (.pubStart 0 [0] true), .app 0 .relock, .app 0 .unlock, .app 0 .announce,
    .app 0 .announced, .comm true (.poll true), .comm true (.pubSend 0 true),
    .app 1 (.initPub [] [] 7 1), .app 1 .announce, .app 1 .announced, .comm true (.poll true),
    .comm true (.pubSend 1 true), .multicast true false 7 ⟨pubHello (ide2i 3), .comm⟩,
    .comm false (.poll true), .comm false (.subSock [] 0 true),
    .transfer false true, .transfer false true, .comm true (.poll true),
    .comm true (.router (ide2i 2)), .comm true (.poll true), .comm true (.router (ide2i 2)),
    .comm true (.push (some 0)), .app 0 .drain, .app 0 .drain]

/-- With one call at a time the reply is its own: it returns with its subscriber. -/
theorem initPub_enough_oneGroup :
    ∃ w, exec (step pairId pairHome 10) (init (Fin 3) pairId id) (subscribed ++ oneGroup) = some w ∧
      (w.net true).app 1 = .announce 7 1 1 ∧ w.EnoughSubscribers pairId pairHome := by
  obtain ⟨w, hrun, hw⟩ := exists_exec (step pairId pairHome 10) (init (Fin 3) pairId id)
    (subscribed ++ oneGroup) (fun w => (w.net true).app 1 = .announce 7 1 1) (by decide)
  refine ⟨w, hrun, of_decide_eq_true hw, ?_⟩
  refine initPub_enough pairId ?_ pairHome 10 id _ ?_ ?_ w hrun
  · intro a b hab
    revert a b
    decide
  · decide
  · decide +kernel

/-- Thread 0 counts the reply for group 8: its call returns 0, and nobody has subscribed to that
group. -/
theorem not_enough_twoGroups :
    ∃ w, exec (step pairId pairHome 10) (init (Fin 3) pairId id) (subscribed ++ twoGroups) = some w ∧
      ((w.net true).appStep 0 .announce).map CommHandler.rets = some [(0, .initPub 8, 0)] ∧
      (w.net true).subGroups = [] ∧ (w.net false).subGroups = [7] ∧
      ¬ w.EnoughSubscribers pairId pairHome := by
  obtain ⟨w, hrun, hw⟩ := exists_exec (step pairId pairHome 10) (init (Fin 3) pairId id)
    (subscribed ++ twoGroups)
    (fun w => (w.net true).app 0 = .announce 8 1 1 ∧
      ((w.net true).appStep 0 .announce).map CommHandler.rets = some [(0, .initPub 8, 0)] ∧
      (w.net true).subGroups = [] ∧ (w.net false).subGroups = [7]) (by decide)
  simp only [decide_eq_true_eq] at hw
  obtain ⟨hpc, hret, hpub, hsub⟩ := hw
  refine ⟨w, hrun, hret, hpub, hsub, ?_⟩
  intro h
  obtain ⟨nodes, -, hlen, hall⟩ := h 0 8 1 1 hpc le_rfl
  have hnone : ∀ b, b ∉ nodes := by
    intro b hb
    have hgid := (hall b hb).1
    cases b with
    | true => simp [hpub] at hgid
    | false => simp [hsub] at hgid
  rw [List.eq_nil_iff_forall_not_mem.mpr hnone] at hlen
  simp at hlen

end Publication

end CommTest.Zmq
