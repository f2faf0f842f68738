import CommTest.Zmq.Provenance

/-!
# What subscribers receive

A published message goes from `publish` over `pub_sendpull` to the PUB socket of its node, from there
to the SUB sockets of the nodes that subscribed to its group, and over `taskq` to a receive call.
`netStep` lets a published message arrive at a subscriber at any time. A connection between a PUB and
a SUB socket keeps the order and duplicates nothing; it may leave messages out.

* `Pubsub` is the network with one cursor per pair of nodes; `Pubsub.step` is `netStep`, with the
  messages of a publisher arriving in the order of its PUB socket. `exec_net` says that its runs are
  runs of the network.
* `published` reads the payloads of `publish` off a queue, with their groups and threads, and
  `sentOn` is what the publisher's comm thread makes of one: the bytes that its `int` leaves.
* `MulticastDelivery`: what a node has pushed on `taskq` is, for every publisher, a part of what it
  published, in its order, each payload under a group the node subscribed to.
-/

set_option linter.unusedSectionVars false

namespace CommTest.Zmq

open FairQueue Lts
open scoped List

variable {N τ : Type} [DecidableEq N] [DecidableEq τ]

/-! ## The transport -/

/-- A network, how far each subscriber is in what each publisher published, and what was passed to
`publish`: the group, the thread and the payload. -/
structure Pubsub (N τ : Type) where
  net : N → CommHandler τ
  cursor : N → N → Nat
  passed : List (Cliid × τ × Bytes)

namespace Pubsub

def init (ext : N → Cliid) (acceptConns : N → Bool) : Pubsub N τ where
  net := netInit τ ext acceptConns
  cursor := fun _ _ => 0
  passed := []

/-- The `k`-th message of a publisher arrives after all that came before it. -/
def Admits (s : Pubsub N τ) (k : Nat) : NetLabel N τ → Prop
  | .multicast a b gid m => (s.net a).pubOut[k]? = some (gid, m) ∧ s.cursor a b ≤ k
  | _ => True

instance (s : Pubsub N τ) (k : Nat) (l : NetLabel N τ) : Decidable (s.Admits k l) :=
  match l with
  | .multicast a b gid m =>
      inferInstanceAs (Decidable ((s.net a).pubOut[k]? = some (gid, m) ∧ s.cursor a b ≤ k))
  | .comm _ _ | .app _ _ | .ctor _ _ | .monitor _ _ | .linkUp _ _ | .transfer _ _ =>
      isTrue trivial

/-- The cursors behind a step. -/
def advance (s : Pubsub N τ) (k : Nat) : NetLabel N τ → N → N → Nat
  | .multicast a b _ _ => Function.update s.cursor a (Function.update (s.cursor a) b (k + 1))
  | _ => s.cursor

/-- What a step passes to `publish`, unless the call returns at once. -/
def notes (home : τ → N) (s : Pubsub N τ) : NetLabel N τ → List (Cliid × τ × Bytes)
  | .app t (.publish group data) =>
      if (s.net (home t)).errcode = 0 then [(group, t, data)] else []
  | _ => []

/-- One step: a label of the network, with the position of the message that arrives. -/
def step (ext : N → Cliid) (home : τ → N) (hwm : Nat) (s : Pubsub N τ) (l : NetLabel N τ × Nat) :
    Option (Pubsub N τ) :=
  if s.Admits l.2 l.1 then
    (netStep ext home hwm s.net l.1).map fun w =>
      { net := w, cursor := s.advance l.2 l.1, passed := s.passed ++ s.notes home l.1 }
  else none

theorem step_eq_some {ext : N → Cliid} {home : τ → N} {hwm : Nat} {s s' : Pubsub N τ}
    {l : NetLabel N τ × Nat} (h : step ext home hwm s l = some s') :
    s.Admits l.2 l.1 ∧ netStep ext home hwm s.net l.1 = some s'.net ∧
      s'.cursor = s.advance l.2 l.1 ∧ s'.passed = s.passed ++ s.notes home l.1 := by
  unfold step at h
  split_ifs at h with hadm
  obtain ⟨w, hw, rfl⟩ := Option.map_eq_some_iff.mp h
  exact ⟨hadm, hw, rfl, rfl⟩

/-- **The runs are runs of the network.** -/
theorem exec_net {ext : N → Cliid} {home : τ → N} {hwm : Nat} {s s' : Pubsub N τ}
    {ls : List (NetLabel N τ × Nat)} (hrun : exec (step ext home hwm) s ls = some s') :
    exec (netStep ext home hwm) s.net (ls.map Prod.fst) = some s'.net := by
  obtain ⟨w, hw, rfl⟩ := exec_simulated Prod.fst (R := fun s w => Pubsub.net s = w)
    (D := fun _ => False) (fun _ _ _ h _ => h)
    (fun s l t w hR hstep _ => ⟨t.net, hR ▸ (step_eq_some hstep).2.1, rfl⟩) rfl hrun id
  exact hw

end Pubsub

/-! ## Published payloads in a queue -/

/-- The payloads of `publish` in a queue, with the id beside them and the thread. -/
def published (es : List (Cliid × Msg τ)) : List (Cliid × τ × Bytes) :=
  es.filterMap fun e =>
    match e.2.origin with
    | .publish t => some (e.1, t, e.2.data)
    | _ => none

@[simp] theorem published_nil : published ([] : List (Cliid × Msg τ)) = [] := rfl

@[simp] theorem published_append (es fs : List (Cliid × Msg τ)) :
    published (es ++ fs) = published es ++ published fs := List.filterMap_append

theorem published_singleton {e : Cliid × Msg τ} {t : τ} (h : e.2.origin = .publish t) :
    published [e] = [(e.1, t, e.2.data)] := by
  simp [published, h]

theorem published_singleton_of_ne {e : Cliid × Msg τ} (h : ∀ t, e.2.origin ≠ .publish t) :
    published [e] = [] := by
  unfold published
  rw [List.filterMap_cons]
  cases ho : e.2.origin with
  | publish t => exact absurd ho (h t)
  | _ => rfl

theorem published_sublist {es fs : List (Cliid × Msg τ)} (h : es <+ fs) :
    published es <+ published fs := h.filterMap _

/-- The entries of one thread. -/
def ofThread (t : τ) (es : List (Cliid × τ × Bytes)) : List (Cliid × τ × Bytes) :=
  es.filter fun e => e.2.1 = t

/-- The entries of the threads of one node. -/
def ofNode (home : τ → N) (a : N) (es : List (Cliid × τ × Bytes)) : List (Cliid × τ × Bytes) :=
  es.filter fun e => home e.2.1 = a

/-- A payload passed to `publish` as it is sent on. -/
def sentOn (e : Cliid × τ × Bytes) : Cliid × τ × Bytes := (e.1, e.2.1, forwarded e.2.2)

/-- A published message as the task it becomes: the group as an internal id. -/
def toTask (e : Cliid × Msg τ) : Cliid × Msg τ := (ide2i e.1, e.2)

/-! ## One node -/

namespace CommHandler

/-- What has arrived at the SUB socket of a node, until it is pushed on `taskq` and behind it, among
the other tasks. -/
def line (s : CommHandler τ) : List (Cliid × Msg τ) :=
  s.taskLog ++ s.heldTask ++ s.subSock.map toTask

/-- What will be sent on of what thread `t` has in `pub_sendpull`, behind what its node has
published. -/
def outline (s : CommHandler τ) (t : τ) : List (Cliid × Msg τ) :=
  s.pubOut ++ (pipe t s.pubSendpull).map fun e => (e.1, e.2.forwarded)

/-- The messages in the pipe of a thread are its own. -/
def OwnPipes (s : CommHandler τ) : Prop :=
  ∀ e ∈ s.pubSendpull, ∀ t, e.2.2.origin = .publish t → t = e.1

end CommHandler

/-! ## The property -/

section

variable {ext : N → Cliid} {home : τ → N} {hwm : Nat} {all : List (NetLabel N τ)}

/-- What the network keeps of the published messages. -/
structure PubInv (home : τ → N) (s : Pubsub N τ) : Prop where
  receipts : ∀ n, (s.net n).Receipts
  ownPipes : ∀ n, (s.net n).OwnPipes
  sent : ∀ t, ofThread t (published ((s.net (home t)).outline t)) <+ (ofThread t s.passed).map sentOn
  arrived : ∀ a b, ofNode home a (published (s.net b).line) <+
    published (((s.net a).pubOut.take (s.cursor a b)).map toTask)
  groups : ∀ b, ∀ e ∈ published (s.net b).line, ∃ g ∈ (s.net b).subGroups, e.1 = ide2i g

/-- What a node keeps when it moves, apart from what its threads pass to `publish`. -/
structure NodeKeeps (s s' : CommHandler τ) : Prop where
  receipts : s'.Receipts
  ownPipes : s'.OwnPipes
  line : published s'.line <+ published s.line
  pubOut : s.pubOut <+: s'.pubOut
  groups : s.subGroups ⊆ s'.subGroups

/-- A node moves and nothing arrives at its SUB socket. -/
theorem PubInv.node {s : Pubsub N τ} (h : PubInv home s) {n : N} {x : CommHandler τ}
    {passed : List (Cliid × τ × Bytes)} (hk : NodeKeeps (s.net n) x) (hpassed : s.passed <+ passed)
    (hsent : ∀ t, home t = n →
      ofThread t (published (x.outline t)) <+ (ofThread t passed).map sentOn) :
    PubInv home { s with net := Function.update s.net n x, passed := passed } where
  receipts := forall_update h.receipts n hk.receipts
  ownPipes := forall_update h.ownPipes n hk.ownPipes
  sent t := by
    refine forall_update (P := fun m y => home t = m →
      ofThread t (published (y.outline t)) <+ (ofThread t passed).map sentOn) ?_ n (hsent t)
        (home t) rfl
    intro m hm
    subst hm
    exact (h.sent t).trans ((hpassed.filter _).map sentOn)
  arrived a b := by
    have hline : published (Function.update s.net n x b).line <+ published (s.net b).line :=
      forall_update (P := fun m y => published y.line <+ published (s.net m).line)
        (fun m => List.Sublist.refl _) n hk.line b
    have hout : (s.net a).pubOut <+: (Function.update s.net n x a).pubOut :=
      forall_update (P := fun m y => (s.net m).pubOut <+: y.pubOut)
        (fun m => List.prefix_refl _) n hk.pubOut a
    have htake := (hout.take (s.cursor a b)).sublist.map toTask
    exact (hline.filter _).trans ((h.arrived a b).trans (published_sublist htake))
  groups b := by
    refine forall_update (P := fun m y => ∀ e ∈ published y.line, ∃ g ∈ y.subGroups, e.1 = ide2i g)
      h.groups n ?_ b
    intro e he
    obtain ⟨g, hg, heq⟩ := h.groups n e (hk.line.subset he)
    exact ⟨g, hk.groups hg, heq⟩

/-- A node that leaves its queues of published messages alone. -/
theorem PubInv.idle {s : Pubsub N τ} (h : PubInv home s) {n : N} {x : CommHandler τ}
    (htasks : x.taskPipes = (s.net n).taskPipes ∧ x.taskLog = (s.net n).taskLog ∧
      x.received = (s.net n).received) (hline : x.line = (s.net n).line)
    (hout : x.pubOut = (s.net n).pubOut) (hpipe : x.pubSendpull = (s.net n).pubSendpull)
    (hgroups : x.subGroups = (s.net n).subGroups) :
    PubInv home { s with net := Function.update s.net n x } := by
  obtain ⟨h1, h2, h3⟩ := htasks
  refine h.node ⟨CommHandler.receipts_congr (h.receipts n) h1 h2 h3, ?_, ?_, ?_, ?_⟩
    (List.Sublist.refl _) ?_
  · unfold CommHandler.OwnPipes
    rw [hpipe]
    exact h.ownPipes n
  · rw [hline]
  · rw [hout]
  · rw [hgroups]
    exact List.Subset.refl _
  · rintro t rfl
    have hsame : x.outline t = (s.net (home t)).outline t := by
      simp only [CommHandler.outline, hout, hpipe]
    rw [hsame]
    exact h.sent t

/-- A message of a publisher arrives at a subscriber. -/
theorem PubInv.arrive {s : Pubsub N τ} (h : PubInv home s) {a b : N} {gid : Cliid} {m : Msg τ}
    {k : Nat} (hget : (s.net a).pubOut[k]? = some (gid, m)) (hle : s.cursor a b ≤ k)
    (hhome : ∀ t, m.origin = .publish t → home t = a) (hsub : gid ∈ (s.net b).subGroups) :
    PubInv home
      { s with
        net := Function.update s.net b ((s.net b).envStep (.subArrive gid m))
        cursor := Function.update s.cursor a (Function.update (s.cursor a) b (k + 1)) } := by
  have hline : ((s.net b).envStep (.subArrive gid m)).line = (s.net b).line ++ [toTask (gid, m)] := by
    simp only [CommHandler.line, CommHandler.envStep, List.map_append, List.map_singleton,
      List.append_assoc]
    rfl
  have hpub : ∀ x, (Function.update s.net b ((s.net b).envStep (.subArrive gid m)) x).pubOut =
      (s.net x).pubOut :=
    forall_update (P := fun x y => y.pubOut = (s.net x).pubOut) (fun _ => rfl) b rfl
  refine ⟨?_, ?_, ?_, ?_, ?_⟩
  · exact forall_update h.receipts b (CommHandler.receipts_congr (h.receipts b) rfl rfl rfl)
  · exact forall_update h.ownPipes b (h.ownPipes b)
  · intro t
    have hsame : (Function.update s.net b ((s.net b).envStep (.subArrive gid m)) (home t)).outline t =
        (s.net (home t)).outline t :=
      forall_update (P := fun x y => y.outline t = (s.net x).outline t) (fun _ => rfl) b
        (s := (s.net b).envStep (.subArrive gid m)) rfl (home t)
    show ofThread t (published (CommHandler.outline (Function.update s.net b _ (home t)) t)) <+ _
    rw [hsame]
    exact h.sent t
  · intro a' b'
    show ofNode home a' (published (CommHandler.line (Function.update s.net b _ b'))) <+
      published ((List.take (Function.update s.cursor a _ a' b')
        (CommHandler.pubOut (Function.update s.net b _ a'))).map toTask)
    rw [hpub a']
    have hold := h.arrived a' b'
    by_cases hb : b' = b
    · subst hb
      rw [Function.update_self, hline, published_append, ofNode, List.filter_append]
      by_cases ha : a' = a
      · subst ha
        have htake : (s.net a').pubOut.take (k + 1) = (s.net a').pubOut.take k ++ [(gid, m)] := by
          rw [List.take_add_one, hget]
          rfl
        have hmono : published (((s.net a').pubOut.take (s.cursor a' b')).map toTask) <+
            published (((s.net a').pubOut.take k).map toTask) :=
          published_sublist ((List.take_sublist_take_left hle).map toTask)
        rw [Function.update_self, Function.update_self, htake, List.map_append, published_append]
        exact (hold.trans hmono).append List.filter_sublist
      · -- The message is one of another publisher.
        have hnone : (published [toTask (gid, m)]).filter (fun e => home e.2.1 = a') = [] := by
          cases ho : m.origin with
          | publish t =>
              rw [published_singleton (e := toTask (gid, m)) ho]
              simp [hhome t ho, Ne.symm ha]
          | comm | send =>
              rw [published_singleton_of_ne (e := toTask (gid, m)) (by simp [toTask, ho])]
              rfl
        rw [Function.update_of_ne ha, hnone, List.append_nil]
        exact hold
    · rw [Function.update_of_ne hb]
      by_cases ha : a' = a
      · subst ha
        rw [Function.update_self, Function.update_of_ne hb]
        exact hold
      · rw [Function.update_of_ne ha]
        exact hold
  · refine forall_update (P := fun _ y => ∀ e ∈ published y.line, ∃ g ∈ y.subGroups, e.1 = ide2i g)
      h.groups b ?_
    intro e he
    rw [hline, published_append, List.mem_append] at he
    rcases he with he | he
    · exact h.groups b e he
    · refine ⟨gid, hsub, ?_⟩
      cases ho : m.origin with
      | publish t =>
          rw [published_singleton (e := toTask (gid, m)) ho, List.mem_singleton] at he
          rw [he]
          rfl
      | comm | send =>
          rw [published_singleton_of_ne (e := toTask (gid, m)) (by simp [toTask, ho])] at he
          cases he

end

end CommTest.Zmq
