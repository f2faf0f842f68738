import CommTest.Lib.FairQueue
import CommTest.Zmq.CommHandler
import Mathlib.Data.List.Infix

/-!
# Unicast between ports

The abstract model of unicast messages in a network of nodes. A `Port` is what a node is to the
others: the messages its threads passed to `send` and those still in `msgq`, what it has handed to
its ROUTER socket and what has arrived there, the peers it knows, and the tasks it has taken. The
message of an unknown peer is taken as its hello and goes no further, so the whole design rests on
the hello being first on every connection.

* `PortStep` is what a node can do to its port, `WireStep` what the nodes and the connections
  between them can do together.
* `Wired` is the invariant: per ordered pair of nodes, the stream of messages under way starts with
  the hello as long as the receiver does not know the sender (`PairInv`), and per destination
  nothing of a thread that sends `Plain` payloads only is lost, cut, duplicated or overtaken on the
  way (`conserved`).
* `Wired.delivered`: the tasks of such a thread `t` taken at `b` are the first messages that `t`
  passed to `send` for `b`.

`key n` is the identity under which node `n` is known to the others.
-/

set_option linter.unusedSectionVars false

namespace CommTest.Zmq

open FairQueue

variable {N τ : Type} [DecidableEq N] [DecidableEq τ]

/-! ## Ports -/

/-- What a node is to the others. `greeting` is the peer whose hello is being sent; `tasks` is
everything taken for `taskq`. -/
structure Port (τ : Type) where
  sends : List (τ × Cliid × Msg τ)
  queue : List (τ × Cliid × Msg τ)
  out : List (Cliid × Msg τ)
  inbox : List (Cliid × Msg τ)
  known : Cliid → Bool
  named : List Cliid
  peers : List Cliid
  greeting : Option Cliid
  tasks : List (Cliid × Msg τ)

/-- The payloads of thread `t` in a list of messages. -/
def sendsOf (t : τ) (q : List (Msg τ)) : List Bytes :=
  q.filterMap fun m => if m.origin = .send t then some m.data else none

/-- The payloads for destination `c` in the messages of one thread. -/
def payloadsFor (c : Cliid) (q : List (Cliid × Msg τ)) : List Bytes := (pipe c q).map fun m => m.data

/-- The messages of a connection other than `sub_hello`. -/
def nonSub (q : List (Msg τ)) : List (Msg τ) := q.filter fun m => m.data ≠ commHandlerSubInit

@[simp] theorem sendsOf_nil (t : τ) : sendsOf t [] = [] := rfl

@[simp] theorem sendsOf_append (t : τ) (q r : List (Msg τ)) :
    sendsOf t (q ++ r) = sendsOf t q ++ sendsOf t r := by
  simp [sendsOf]

theorem sendsOf_singleton_of_ne {t : τ} {m : Msg τ} (h : m.origin ≠ .send t) : sendsOf t [m] = [] := by
  simp [sendsOf, h]

theorem mem_sendsOf {t : τ} {m : Msg τ} {q : List (Msg τ)} (hm : m ∈ q) (ht : m.origin = .send t) :
    m.data ∈ sendsOf t q :=
  List.mem_filterMap.mpr ⟨m, hm, if_pos ht⟩

@[simp] theorem nonSub_append (q r : List (Msg τ)) : nonSub (q ++ r) = nonSub q ++ nonSub r := by
  simp [nonSub]

theorem nonSub_singleton_of_eq {m : Msg τ} (h : m.data = commHandlerSubInit) : nonSub [m] = [] := by
  simp [nonSub, h]

theorem nonSub_singleton_of_ne {m : Msg τ} (h : m.data ≠ commHandlerSubInit) : nonSub [m] = [m] := by
  simp [nonSub, h]

/-- What node `n` can do to its port: nothing; accept a `send` of one of its threads; forward what
is left of the oldest message of a thread to a known peer; take a message of a peer as a `sub_hello`,
as a hello or as a task; connect and begin to greet; greet; answer an announcement; take a multicast
task. -/
inductive PortStep (home : τ → N) (n : N) (p : Port τ) : Port τ → Prop
  | skip : PortStep home n p p
  | send {t dest data} (hhome : home t = n) :
      PortStep home n p
        { p with sends := p.sends ++ [(t, dest, Msg.mk data (.send t))],
                 queue := p.queue ++ [(t, dest, Msg.mk data (.send t))] }
  | forward {t dest m q} (hpop : pop t p.queue = some ((dest, m), q)) (hpeer : dest ∈ p.peers)
      (hg : p.greeting = none) (hlen : ¬ recvLen m.data < 0) :
      PortStep home n p { p with queue := q, out := p.out ++ [(dest, m.forwarded)] }
  | suber {c m q} (hpop : pop c p.inbox = some (m, q)) (hd : m.data = commHandlerSubInit) :
      PortStep home n p { p with inbox := q }
  | client {c m q} (hpop : pop c p.inbox = some (m, q)) (hd : m.data ≠ commHandlerSubInit)
      (hk : p.known c = false) :
      PortStep home n p { p with inbox := q, known := Function.update p.known c true }
  | task {c m q} (hpop : pop c p.inbox = some (m, q)) (hd : m.data ≠ commHandlerSubInit)
      (hk : p.known c = true) :
      PortStep home n p { p with inbox := q, tasks := p.tasks ++ [(c, m)] }
  | connect (dest : Cliid) (hg : p.greeting = none) :
      PortStep home n p
        { p with known := Function.update p.known dest true, named := p.named ++ [dest],
                 greeting := some dest }
  | hello {dest} (hg : p.greeting = some dest) :
      PortStep home n p
        { p with out := p.out ++ [(dest, Msg.mk commHandlerInit .comm)], greeting := none }
  | reply (dest : Cliid) : PortStep home n p
      { p with out := p.out ++ [(dest, Msg.mk commHandlerSubInit .comm)] }
  | multicast {m} (c : Cliid) (hm : ∀ t, m.origin ≠ .send t) :
      PortStep home n p { p with tasks := p.tasks ++ [(c, m)] }

/-- What the network can do: a step of one node; a connection that `a` has asked for comes up, and
each side knows the other; a connection carries the oldest message of `a` for `b`. -/
inductive WireStep (key : N → Cliid) (home : τ → N) (p : N → Port τ) : (N → Port τ) → Prop
  | node {n q} (h : PortStep home n (p n) q) : WireStep key home p (Function.update p n q)
  | linkUp {a b} (hne : a ≠ b) (hnamed : key b ∈ (p a).named) :
      WireStep key home p
        (Function.update (Function.update p a { p a with peers := (p a).peers ++ [key b] }) b
          { p b with peers := (p b).peers ++ [key a] })
  | transfer {a b m q} (hne : a ≠ b) (hpop : pop (key b) (p a).out = some (m, q)) :
      WireStep key home p
        (Function.update (Function.update p a { p a with out := q }) b
          { p b with inbox := (p b).inbox ++ [(key a, m)] })

/-! ## The invariant -/

/-- The messages of `a` for `b` that `b` has not taken, oldest first. -/
def stream (key : N → Cliid) (p : N → Port τ) (a b : N) : List (Msg τ) :=
  pipe (key a) (p b).inbox ++ pipe (key b) (p a).out

/-- Sender and receiver of one connection: once the sender has asked for it, it is still greeting,
or the hello is under way, or it is known to the receiver; and while it is not known, the first
message under way that counts is the hello. -/
structure PairInv (q : List (Msg τ)) (known named greeting : Prop) : Prop where
  greeted : named → greeting ∨ known ∨ nonSub q ≠ []
  first : ¬ known → ∀ m r, nonSub q = m :: r → m.origin = .comm

/-- A message a node's comm thread wrote, or what the comm thread left of one of its threads'. -/
structure Clean (owner : τ → Prop) (m : Msg τ) : Prop where
  short : m.data.length < 2 ^ 31
  source : m.origin = .comm ∨ ∃ t, m.origin = .send t ∧ owner t

/-- A payload that is not a `sub_hello` and is not cut. -/
def Plain (data : Bytes) : Prop := data ≠ commHandlerSubInit ∧ Whole data

/-- **The invariant of the wires.** -/
structure Wired (key : N → Cliid) (home : τ → N) (p : N → Port τ) : Prop where
  queue : ∀ n e, e ∈ (p n).queue → e.2.2.origin = .send e.1 ∧ home e.1 = n
  out : ∀ n e, e ∈ (p n).out → Clean (fun t => home t = n) e.2
  inbox : ∀ n e, e ∈ (p n).inbox → Clean (fun t => key (home t) = e.1) e.2
  tasks : ∀ n e, e ∈ (p n).tasks → ∀ t, e.2.origin = .send t → key (home t) = e.1
  named : ∀ n c, c ∈ (p n).named → (p n).known c = true
  peers : ∀ a b, key b ∈ (p a).peers → key b ∈ (p a).named ∨ key a ∈ (p b).named
  pair : ∀ a b, PairInv (stream key p a b) ((p b).known (key a) = true) (key b ∈ (p a).named)
    ((p a).greeting = some (key b))
  conserved : ∀ t b, (∀ d ∈ payloadsFor (key b) (pipe t (p (home t)).sends), Plain d) →
    payloadsFor (key b) (pipe t (p (home t)).sends) =
      sendsOf t ((p b).tasks.map Prod.snd) ++ (sendsOf t (stream key p (home t) b) ++
        payloadsFor (key b) (pipe t (p (home t)).queue))

/-- **Delivery**: what `b` has taken of `t` is a first part of what `t` sent to `b`. -/
theorem Wired.delivered {key : N → Cliid} {home : τ → N} {p : N → Port τ} (h : Wired key home p)
    (t : τ) (b : N) (hplain : ∀ d ∈ payloadsFor (key b) (pipe t (p (home t)).sends), Plain d) :
    sendsOf t ((p b).tasks.map Prod.snd) <+: payloadsFor (key b) (pipe t (p (home t)).sends) := by
  rw [h.conserved t b hplain]
  exact List.prefix_append _ _

/-! ## One connection -/

namespace PairInv

theorem of_known {q : List (Msg τ)} {known named greeting : Prop} (h : known) :
    PairInv q known named greeting where
  greeted _ := .inr (.inl h)
  first hk := absurd h hk

/-- The receiver takes the oldest messages `r`: none, a `sub_hello`, or one after which it knows the
sender. -/
theorem receive {r q : List (Msg τ)} {known known' named greeting : Prop}
    (h : PairInv (r ++ q) known named greeting) (hmono : known → known')
    (hr : nonSub r = [] ∨ known') : PairInv q known' named greeting := by
  rcases hr with hr | hknown
  · have hsame : nonSub (r ++ q) = nonSub q := by
      rw [nonSub_append, hr, List.nil_append]
    constructor
    · intro hnamed
      rcases h.greeted hnamed with hg | hk | hne
      · exact .inl hg
      · exact .inr (.inl (hmono hk))
      · exact .inr (.inr (hsame ▸ hne))
    · intro hk m l hm
      apply h.first (fun hk' => hk (hmono hk')) m l
      rw [hsame, hm]
  · exact of_known hknown

/-- The sender appends nothing, or a `sub_hello`. -/
theorem transmit_sub {q d : List (Msg τ)} {known named greeting named' greeting' : Prop}
    (h : PairInv q known named greeting) (hd : nonSub d = [])
    (hnamed : named' → greeting' ∨ named ∧ ¬ greeting) : PairInv (q ++ d) known named' greeting' := by
  have hsame : nonSub (q ++ d) = nonSub q := by
    rw [nonSub_append, hd, List.append_nil]
  constructor
  · intro hn
    rcases hnamed hn with hg | ⟨hn, hng⟩
    · exact .inl hg
    · rw [hsame]
      exact .inr ((h.greeted hn).resolve_left hng)
  · rw [hsame]
    exact h.first

/-- The sender appends its hello. -/
theorem transmit_hello {q : List (Msg τ)} {m : Msg τ} {known named greeting named' greeting' : Prop}
    (h : PairInv q known named greeting) (hm : m.origin = .comm)
    (hd : m.data ≠ commHandlerSubInit) : PairInv (q ++ [m]) known named' greeting' := by
  constructor
  · intro _
    refine .inr (.inr ?_)
    rw [nonSub_append, nonSub_singleton_of_ne hd]
    simp
  · intro hk m' l hl
    rw [nonSub_append, nonSub_singleton_of_ne hd] at hl
    cases hq : nonSub q with
    | nil =>
        rw [hq] at hl
        cases hl
        exact hm
    | cons m₀ q₀ =>
        rw [hq] at hl
        cases hl
        exact h.first hk _ _ hq

/-- The sender appends a message of a thread, after the greeting. -/
theorem transmit {q : List (Msg τ)} {m : Msg τ} {known named greeting named' greeting' : Prop}
    (h : PairInv q known named greeting) (hd : m.data ≠ commHandlerSubInit)
    (hready : known ∨ nonSub q ≠ []) : PairInv (q ++ [m]) known named' greeting' := by
  constructor
  · intro _
    refine .inr (.inr ?_)
    rw [nonSub_append, nonSub_singleton_of_ne hd]
    simp
  · intro hk m' l hl
    rw [nonSub_append] at hl
    cases hq : nonSub q with
    | nil =>
        rcases hready with hk' | hne
        · exact absurd hk' hk
        · exact absurd hq hne
    | cons m₀ q₀ =>
        rw [hq] at hl
        cases hl
        exact h.first hk _ _ hq

end PairInv

/-! ## What a step of a node does to one connection -/

/-- The sender's side: what a step appends for destination `c`. -/
theorem PortStep.sender {home : τ → N} {n : N} {p q : Port τ} (h : PortStep home n p q)
    (c : Cliid) :
    ∃ d, pipe c q.out = pipe c p.out ++ d ∧
      ((nonSub d = [] ∧
          (c ∈ q.named → q.greeting = some c ∨ c ∈ p.named ∧ ¬ p.greeting = some c)) ∨
       (∃ m, d = [m] ∧ m.origin = .comm ∧ m.data ≠ commHandlerSubInit) ∨
       (∃ m, d = [m] ∧ m.data ≠ commHandlerSubInit ∧ c ∈ p.peers ∧ p.greeting = none)) := by
  have hkeep : ∀ g : Option Cliid, c ∈ p.named → g = some c ∨ c ∈ p.named ∧ ¬ g = some c := by
    intro g hn
    by_cases hg : g = some c
    · exact .inl hg
    · exact .inr ⟨hn, hg⟩
  cases h with
  | skip => exact ⟨[], by simp, .inl ⟨rfl, hkeep p.greeting⟩⟩
  | send | suber | client | task | multicast =>
      exact ⟨[], by simp, .inl ⟨rfl, hkeep p.greeting⟩⟩
  | forward hpop hpeer hg hlen =>
      rename_i t dest m r
      by_cases hc : dest = c
      · subst hc
        by_cases hm : m.forwarded.data = commHandlerSubInit
        · exact ⟨[m.forwarded], by simp, .inl ⟨nonSub_singleton_of_eq hm, hkeep p.greeting⟩⟩
        · exact ⟨[m.forwarded], by simp, .inr (.inr ⟨m.forwarded, rfl, hm, hpeer, hg⟩)⟩
      · exact ⟨[], by simp [hc], .inl ⟨rfl, hkeep p.greeting⟩⟩
  | connect dest hg =>
      refine ⟨[], by simp, .inl ⟨rfl, ?_⟩⟩
      intro hn
      rcases List.mem_append.mp hn with hn | hn
      · exact .inr ⟨hn, by simp [hg]⟩
      · rw [List.mem_singleton] at hn
        exact .inl (by rw [hn])
  | hello hg =>
      rename_i dest
      by_cases hc : dest = c
      · subst hc
        refine ⟨[Msg.mk commHandlerInit .comm], by simp, .inr (.inl ⟨_, rfl, rfl, ?_⟩)⟩
        exact commHandlerInit_ne_commHandlerSubInit
      · refine ⟨[], by simp [hc], .inl ⟨rfl, ?_⟩⟩
        intro hn
        exact .inr ⟨hn, by simp [hg, hc]⟩
  | reply dest =>
      by_cases hc : dest = c
      · subst hc
        exact ⟨[Msg.mk commHandlerSubInit .comm], by simp, .inl ⟨nonSub_singleton_of_eq rfl,
          hkeep p.greeting⟩⟩
      · exact ⟨[], by simp [hc], .inl ⟨rfl, hkeep p.greeting⟩⟩

/-- The receiver's side: what a step takes of peer `c`. -/
theorem PortStep.receiver {home : τ → N} {n : N} {p q : Port τ} (h : PortStep home n p q)
    (c : Cliid) :
    ∃ r, pipe c p.inbox = r ++ pipe c q.inbox ∧ (p.known c = true → q.known c = true) ∧
      ((r = [] ∧ (q.tasks = p.tasks ∨ ∃ e, q.tasks = p.tasks ++ [e] ∧
          ((∀ t, e.2.origin ≠ .send t) ∨ e.1 ≠ c ∧ e ∈ p.inbox))) ∨
       (∃ m, r = [m] ∧ m.data = commHandlerSubInit ∧ q.tasks = p.tasks) ∨
       (∃ m, r = [m] ∧ m.data ≠ commHandlerSubInit ∧ p.known c = false ∧ q.known c = true ∧
          q.tasks = p.tasks) ∨
       (∃ m, r = [m] ∧ m.data ≠ commHandlerSubInit ∧ p.known c = true ∧
          q.tasks = p.tasks ++ [(c, m)])) := by
  have hmono : ∀ x, p.known c = true → Function.update p.known x true c = true := by
    intro x hk
    by_cases hx : c = x
    · subst hx
      simp
    · rw [Function.update_of_ne hx, hk]
  cases h with
  | skip => exact ⟨[], by simp, fun hk => hk, .inl ⟨rfl, .inl rfl⟩⟩
  | send | forward | hello | reply => exact ⟨[], by simp, fun hk => hk, .inl ⟨rfl, .inl rfl⟩⟩
  | connect => exact ⟨[], by simp, hmono _, .inl ⟨rfl, .inl rfl⟩⟩
  | multicast c' hm => exact ⟨[], by simp, fun hk => hk, .inl ⟨rfl, .inr ⟨_, rfl, .inl hm⟩⟩⟩
  | suber hpop hd =>
      rename_i c' m r
      by_cases hc : c = c'
      · subst hc
        exact ⟨[m], pop_pipe hpop, fun hk => hk, .inr (.inl ⟨m, rfl, hd, rfl⟩)⟩
      · exact ⟨[], (pop_pipe_ne hc hpop).symm, fun hk => hk, .inl ⟨rfl, .inl rfl⟩⟩
  | client hpop hd hk =>
      rename_i c' m r
      by_cases hc : c = c'
      · subst hc
        exact ⟨[m], pop_pipe hpop, hmono c, .inr (.inr (.inl ⟨m, rfl, hd, hk, by simp, rfl⟩))⟩
      · exact ⟨[], (pop_pipe_ne hc hpop).symm, hmono c', .inl ⟨rfl, .inl rfl⟩⟩
  | task hpop hd hk =>
      rename_i c' m r
      by_cases hc : c = c'
      · subst hc
        exact ⟨[m], pop_pipe hpop, fun hk => hk, .inr (.inr (.inr ⟨m, rfl, hd, hk, rfl⟩))⟩
      · exact ⟨[], (pop_pipe_ne hc hpop).symm, fun hk => hk,
          .inl ⟨rfl, .inr ⟨_, rfl, .inr ⟨Ne.symm hc, mem_of_pop hpop⟩⟩⟩⟩

/-- The sender's books: what a step adds to the sends of `t` for `c` it adds to the queue, and what
it takes from the queue it appends to the connection, if nothing in the queue is cut. -/
theorem PortStep.accounts {home : τ → N} {n : N} {p q : Port τ} (h : PortStep home n p q)
    (hqueue : ∀ e, e ∈ p.queue → e.2.2.origin = .send e.1) (t : τ) (c : Cliid) {d : List (Msg τ)}
    (hd : pipe c q.out = pipe c p.out ++ d) :
    ∃ x, payloadsFor c (pipe t q.sends) = payloadsFor c (pipe t p.sends) ++ x ∧
      ((∀ y ∈ payloadsFor c (pipe t p.queue), Whole y) →
        payloadsFor c (pipe t p.queue) ++ x = sendsOf t d ++ payloadsFor c (pipe t q.queue)) := by
  have hsame : q.out = p.out → sendsOf t d = [] := by
    intro ho
    rw [ho, List.self_eq_append_right] at hd
    rw [hd, sendsOf_nil]
  have hcomm : ∀ m dest, q.out = p.out ++ [(dest, m)] → m.origin = .comm → sendsOf t d = [] := by
    intro m dest ho hm
    rw [ho, pipe_append, List.append_cancel_left_eq] at hd
    rw [← hd]
    by_cases hc : dest = c
    · simp [sendsOf, hm, hc]
    · simp [sendsOf, hc]
  cases h with
  | skip | suber | client | task | multicast | connect =>
      refine ⟨[], by simp, fun _ => ?_⟩
      rw [hsame rfl, List.append_nil, List.nil_append]
  | hello hg =>
      refine ⟨[], by simp, fun _ => ?_⟩
      rw [hcomm _ _ rfl rfl, List.append_nil, List.nil_append]
  | reply =>
      refine ⟨[], by simp, fun _ => ?_⟩
      rw [hcomm _ _ rfl rfl, List.append_nil, List.nil_append]
  | send hhome =>
      rename_i u dest data
      refine ⟨payloadsFor c (pipe t [(u, dest, Msg.mk data (.send u))]), ?_, fun _ => ?_⟩
      · simp [payloadsFor]
      · rw [hsame rfl]
        simp [payloadsFor]
  | forward hpop hpeer hg hlen =>
      rename_i u dest m r
      refine ⟨[], by simp, fun hwhole => ?_⟩
      have hm : m.origin = .send u := hqueue _ (mem_of_pop hpop)
      have hdd : d = if dest = c then [m.forwarded] else [] := by
        rw [pipe_append, List.append_cancel_left_eq] at hd
        rw [← hd]
        by_cases hc : dest = c <;> simp [hc]
      rw [List.append_nil]
      by_cases hu : t = u
      · subst hu
        rw [pop_pipe hpop, hdd]
        by_cases hc : dest = c
        · have hmem : m.data ∈ payloadsFor c (pipe t p.queue) := by
            rw [pop_pipe hpop]
            simp [payloadsFor, hc]
          have hsame : forwarded m.data = m.data := (hwhole _ hmem).forwarded hlen
          simp [payloadsFor, hc, sendsOf, hm, hsame]
        · simp [payloadsFor, hc]
      · have hne : m.forwarded.origin ≠ .send t := by
          rw [Msg.forwarded_origin, hm]
          simp [Ne.symm hu]
        rw [pop_pipe_ne hu hpop, hdd]
        by_cases hc : dest = c
        · simp [hc, sendsOf_singleton_of_ne hne]
        · simp [hc]

/-! ## Steps of the network -/

section

variable {key : N → Cliid} {home : τ → N} {p p' : N → Port τ}

/-- The connection between two nodes that take a step each (or none). -/
theorem stream_of_portSteps {a b : N} {r d : List (Msg τ)}
    (hr : pipe (key a) (p b).inbox = r ++ pipe (key a) (p' b).inbox)
    (hd : pipe (key b) (p' a).out = pipe (key b) (p a).out ++ d) :
    ∃ mid, stream key p a b = r ++ mid ∧ stream key p' a b = mid ++ d := by
  refine ⟨pipe (key a) (p' b).inbox ++ pipe (key b) (p a).out, ?_, ?_⟩
  · rw [stream, hr, List.append_assoc]
  · rw [stream, hd, List.append_assoc]

theorem pairInv_of_portSteps (hw : Wired key home p)
    (hall : ∀ x, PortStep home x (p x) (p' x)) (a b : N) :
    PairInv (stream key p' a b) ((p' b).known (key a) = true) (key b ∈ (p' a).named)
      ((p' a).greeting = some (key b)) := by
  obtain ⟨r, hr, hmono, hrcv⟩ := (hall b).receiver (key a)
  obtain ⟨d, hd, hsnd⟩ := (hall a).sender (key b)
  obtain ⟨mid, hmid, hmid'⟩ := stream_of_portSteps hr hd
  have hold := hw.pair a b
  rw [hmid] at hold
  rw [hmid']
  have hrecv : PairInv mid ((p' b).known (key a) = true) (key b ∈ (p a).named)
      ((p a).greeting = some (key b)) := by
    apply hold.receive hmono
    rcases hrcv with ⟨rfl, -⟩ | ⟨m, rfl, hm, -⟩ | ⟨m, -, -, -, hk, -⟩ | ⟨m, -, -, hk, -⟩
    · exact .inl rfl
    · exact .inl (nonSub_singleton_of_eq hm)
    · exact .inr hk
    · exact .inr (hmono hk)
  rcases hsnd with ⟨hnil, hnamed⟩ | ⟨m, rfl, hm, hdata⟩ | ⟨m, rfl, hdata, hpeer, hg⟩
  · exact hrecv.transmit_sub hnil hnamed
  · exact hrecv.transmit_hello hm hdata
  · apply hrecv.transmit hdata
    -- the sender knows the receiver because one of the two asked for the connection
    rcases hw.peers a b hpeer with hnamed | hnamed
    · exact (hrecv.greeted hnamed).resolve_left (by simp [hg])
    · exact .inl (hmono (hw.named b _ hnamed))

theorem conserved_of_portSteps (hw : Wired key home p)
    (hall : ∀ x, PortStep home x (p x) (p' x)) (t : τ) (b : N)
    (hplain : ∀ y ∈ payloadsFor (key b) (pipe t (p' (home t)).sends), Plain y) :
    payloadsFor (key b) (pipe t (p' (home t)).sends) =
      sendsOf t ((p' b).tasks.map Prod.snd) ++ (sendsOf t (stream key p' (home t) b) ++
        payloadsFor (key b) (pipe t (p' (home t)).queue)) := by
  obtain ⟨r, hr, hmono, hrcv⟩ := (hall b).receiver (key (home t))
  obtain ⟨d, hd, -⟩ := (hall (home t)).sender (key b)
  obtain ⟨x, hsends, hbooks⟩ :=
    (hall (home t)).accounts (fun e he => (hw.queue _ e he).1) t (key b) hd
  obtain ⟨mid, hmid, hmid'⟩ := stream_of_portSteps hr hd
  rw [hsends] at hplain
  have hold := hw.conserved t b fun y hy => hplain y (List.mem_append_left _ hy)
  -- what is under way and what is queued is part of what was sent, so it is plain too
  have hway : ∀ y ∈ sendsOf t (stream key p (home t) b), Plain y := by
    intro y hy
    apply hplain y (List.mem_append_left _ _)
    rw [hold]
    exact List.mem_append_right _ (List.mem_append_left _ hy)
  have hqueue := hbooks fun y hy => by
    have hy' : y ∈ payloadsFor (key b) (pipe t (p (home t)).sends) := by
      rw [hold]
      exact List.mem_append_right _ (List.mem_append_right _ hy)
    exact (hplain y (List.mem_append_left _ hy')).2
  have htasks : sendsOf t ((p' b).tasks.map Prod.snd) =
      sendsOf t ((p b).tasks.map Prod.snd) ++ sendsOf t r := by
    rcases hrcv with ⟨rfl, hsame | ⟨e, hadd, he⟩⟩ | ⟨m, rfl, hm, hsame⟩ |
      ⟨m, rfl, hm, hk, -, hsame⟩ | ⟨m, rfl, hm, hk, hadd⟩
    · rw [hsame, sendsOf_nil, List.append_nil]
    · have hne : e.2.origin ≠ .send t := by
        rcases he with he | ⟨hkey, hmem⟩
        · exact he t
        · intro ho
          rcases (hw.inbox b e hmem).source with hc | ⟨u, hu, hown⟩
          · rw [hc] at ho
            cases ho
          · rw [hu] at ho
            cases ho
            exact hkey hown.symm
      rw [hadd, List.map_append, sendsOf_append]
      exact congrArg _ (sendsOf_singleton_of_ne hne)
    · -- the thread sends no `sub_hello`
      have hne : m.origin ≠ .send t := by
        intro ho
        have hmem : m ∈ stream key p (home t) b := by
          rw [hmid]
          exact List.mem_append_left _ (List.mem_singleton.mpr rfl)
        exact (hway _ (mem_sendsOf hmem ho)).1 hm
      rw [hsame, sendsOf_singleton_of_ne hne, List.append_nil]
    · -- the message that makes the receiver know the sender is its hello
      have hne : m.origin ≠ .send t := by
        have hfirst := (hw.pair (home t) b).first (by simp [hk]) m (nonSub mid)
        rw [hmid, nonSub_append, nonSub_singleton_of_ne hm] at hfirst
        rw [hfirst rfl]
        simp
      rw [hsame, sendsOf_singleton_of_ne hne, List.append_nil]
    · rw [hadd, List.map_append, sendsOf_append]
      rfl
  calc payloadsFor (key b) (pipe t (p' (home t)).sends)
      = payloadsFor (key b) (pipe t (p (home t)).sends) ++ x := hsends
    _ = sendsOf t ((p b).tasks.map Prod.snd) ++ (sendsOf t r ++ (sendsOf t mid ++
          (payloadsFor (key b) (pipe t (p (home t)).queue) ++ x))) := by
        rw [hold, hmid, sendsOf_append]
        simp only [List.append_assoc]
    _ = _ := by
        rw [hqueue, htasks, hmid', sendsOf_append]
        simp only [List.append_assoc]

/-- The origins at a single port after a step of its node. -/
theorem origins_of_portStep (hw : Wired key home p) {n : N} {q : Port τ}
    (h : PortStep home n (p n) q) :
    (∀ e, e ∈ q.queue → e.2.2.origin = .send e.1 ∧ home e.1 = n) ∧
    (∀ e, e ∈ q.out → Clean (fun t => home t = n) e.2) ∧
    (∀ e, e ∈ q.inbox → Clean (fun t => key (home t) = e.1) e.2) ∧
    (∀ e, e ∈ q.tasks → ∀ t, e.2.origin = .send t → key (home t) = e.1) ∧
    (∀ c, c ∈ q.named → q.known c = true) := by
  have h1 := hw.queue n
  have h2 := hw.out n
  have h3 := hw.inbox n
  have h4 := hw.tasks n
  have h5 := hw.named n
  cases h with
  | skip => exact ⟨h1, h2, h3, h4, h5⟩
  | send hhome =>
      refine ⟨?_, h2, h3, h4, h5⟩
      apply forall_mem_concat h1
      exact ⟨rfl, hhome⟩
  | forward hpop hpeer hg hlen =>
      refine ⟨fun e he => h1 e (mem_of_mem_pop hpop he), ?_, h3, h4, h5⟩
      apply forall_mem_concat h2
      obtain ⟨ho, hhome⟩ := h1 _ (mem_of_pop hpop)
      exact ⟨length_forwarded_lt _, .inr ⟨_, ho, hhome⟩⟩
  | suber hpop hd => exact ⟨h1, h2, fun e he => h3 e (mem_of_mem_pop hpop he), h4, h5⟩
  | client hpop hd hk =>
      refine ⟨h1, h2, fun e he => h3 e (mem_of_mem_pop hpop he), h4, ?_⟩
      intro c hc
      rename_i c' m r
      by_cases hcc : c = c'
      · subst hcc
        exact Function.update_self _ _ _
      · exact (Function.update_of_ne hcc _ _).trans (h5 c hc)
  | task hpop hd hk =>
      refine ⟨h1, h2, fun e he => h3 e (mem_of_mem_pop hpop he), ?_, h5⟩
      apply forall_mem_concat h4
      intro t ht
      rcases (h3 _ (mem_of_pop hpop)).source with hc | ⟨u, hu, hown⟩
      · rw [hc] at ht
        cases ht
      · rw [hu] at ht
        cases ht
        exact hown
  | connect dest hg =>
      refine ⟨h1, h2, h3, h4, ?_⟩
      intro c hc
      by_cases hcd : c = dest
      · subst hcd
        exact Function.update_self _ _ _
      · refine (Function.update_of_ne hcd _ _).trans (h5 c ?_)
        rcases List.mem_append.mp hc with hc | hc
        · exact hc
        · exact absurd (List.mem_singleton.mp hc) hcd
  | hello hg =>
      refine ⟨h1, ?_, h3, h4, h5⟩
      apply forall_mem_concat h2
      exact ⟨length_commHandlerInit_lt, .inl rfl⟩
  | reply dest =>
      refine ⟨h1, ?_, h3, h4, h5⟩
      apply forall_mem_concat h2
      exact ⟨length_commHandlerSubInit_lt, .inl rfl⟩
  | multicast c' hm =>
      refine ⟨h1, h2, h3, ?_, h5⟩
      apply forall_mem_concat h4
      intro t ht
      exact absurd ht (hm t)

/-- A step keeps the peers of a port and what it has named. -/
theorem PortStep.peers_named {n : N} {q r : Port τ} (h : PortStep home n q r) :
    r.peers = q.peers ∧ q.named ⊆ r.named := by
  cases h with
  | connect => exact ⟨rfl, List.subset_append_left _ _⟩
  | _ => exact ⟨rfl, List.Subset.refl _⟩

/-- **Steps of the nodes keep the wires**, also when several nodes step at once. -/
theorem Wired.of_portSteps (hw : Wired key home p) (hall : ∀ x, PortStep home x (p x) (p' x)) :
    Wired key home p' where
  queue n := (origins_of_portStep hw (hall n)).1
  out n := (origins_of_portStep hw (hall n)).2.1
  inbox n := (origins_of_portStep hw (hall n)).2.2.1
  tasks n := (origins_of_portStep hw (hall n)).2.2.2.1
  named n := (origins_of_portStep hw (hall n)).2.2.2.2
  peers a b h := by
    rw [(hall a).peers_named.1] at h
    rcases hw.peers a b h with hn | hn
    · exact .inl ((hall a).peers_named.2 hn)
    · exact .inr ((hall b).peers_named.2 hn)
  pair := pairInv_of_portSteps hw hall
  conserved := conserved_of_portSteps hw hall

/-- A connection that comes up changes the peers of its two ends only. -/
theorem Wired.linkUp (hw : Wired key home p) (hinj : Function.Injective key) {a b : N}
    (hnamed : key b ∈ (p a).named)
    (hsame : ∀ x, p' x = { p x with peers := (p' x).peers })
    (hpeers : ∀ x c, c ∈ (p' x).peers →
      c ∈ (p x).peers ∨ x = a ∧ c = key b ∨ x = b ∧ c = key a) : Wired key home p' := by
  have hstream : ∀ x y, stream key p' x y = stream key p x y := by
    intro x y
    rw [stream, hsame x, hsame y, stream]
  refine ⟨?_, ?_, ?_, ?_, ?_, ?_, ?_, ?_⟩
  · intro n
    rw [hsame n]
    exact hw.queue n
  · intro n
    rw [hsame n]
    exact hw.out n
  · intro n
    rw [hsame n]
    exact hw.inbox n
  · intro n
    rw [hsame n]
    exact hw.tasks n
  · intro n
    rw [hsame n]
    exact hw.named n
  · intro x y hxy
    have hname : ∀ z, (p' z).named = (p z).named := fun z => by rw [hsame z]
    rw [hname x, hname y]
    rcases hpeers x _ hxy with hold | ⟨rfl, hkey⟩ | ⟨rfl, hkey⟩
    · exact hw.peers x y hold
    · rw [hinj hkey]
      exact .inl hnamed
    · rw [hinj hkey]
      exact .inr hnamed
  · intro x y
    rw [hstream x y, hsame x, hsame y]
    exact hw.pair x y
  · intro t y
    rw [hstream (home t) y, hsame (home t), hsame y]
    exact hw.conserved t y

/-- A transfer moves the oldest message of `a` for `b` from one end of the connection to the other:
the streams stay as they are. -/
theorem stream_transfer (hinj : Function.Injective key) {a b : N} {m : Msg τ}
    {q : List (Cliid × Msg τ)} (hpop : pop (key b) (p a).out = some (m, q))
    (hout : ∀ x, (p' x).out = if x = a then q else (p x).out)
    (hinbox : ∀ x, (p' x).inbox = if x = b then (p b).inbox ++ [(key a, m)] else (p x).inbox)
    (x y : N) : stream key p' x y = stream key p x y := by
  rw [stream, stream, hout x, hinbox y]
  by_cases hx : x = a
  · subst hx
    by_cases hy : y = b
    · subst hy
      rw [if_pos rfl, if_pos rfl, pop_pipe hpop]
      simp
    · have hkey : key y ≠ key b := fun h => hy (hinj h)
      rw [if_pos rfl, if_neg hy, pop_pipe_ne hkey hpop]
  · rw [if_neg hx]
    by_cases hy : y = b
    · subst hy
      have hkey : key a ≠ key x := fun h => hx (hinj h).symm
      simp [hkey]
    · rw [if_neg hy]

theorem Wired.transfer (hw : Wired key home p) (hinj : Function.Injective key) {a b : N} {m : Msg τ}
    {q : List (Cliid × Msg τ)} (hpop : pop (key b) (p a).out = some (m, q))
    (hsame : ∀ x, p' x = { p x with out := (p' x).out, inbox := (p' x).inbox })
    (hout : ∀ x, (p' x).out = if x = a then q else (p x).out)
    (hinbox : ∀ x, (p' x).inbox = if x = b then (p b).inbox ++ [(key a, m)] else (p x).inbox) :
    Wired key home p' := by
  have hstream := stream_transfer hinj hpop hout hinbox
  refine ⟨?_, ?_, ?_, ?_, ?_, ?_, ?_, ?_⟩
  · intro n
    rw [hsame n]
    exact hw.queue n
  · intro n e he
    rw [hout n] at he
    split_ifs at he with hn
    · subst hn
      exact hw.out n e (mem_of_mem_pop hpop he)
    · exact hw.out n e he
  · intro n e he
    rw [hinbox n] at he
    split_ifs at he with hn
    · subst hn
      rcases List.mem_append.mp he with he | he
      · exact hw.inbox n e he
      · rw [List.mem_singleton] at he
        subst he
        have hm := hw.out a _ (mem_of_pop hpop)
        refine ⟨hm.short, hm.source.imp id ?_⟩
        rintro ⟨t, ht, hown⟩
        exact ⟨t, ht, congrArg key hown⟩
    · exact hw.inbox n e he
  · intro n
    rw [hsame n]
    exact hw.tasks n
  · intro n
    rw [hsame n]
    exact hw.named n
  · intro x y
    rw [hsame x, hsame y]
    exact hw.peers x y
  · intro x y
    rw [hstream x y, hsame x, hsame y]
    exact hw.pair x y
  · intro t y
    rw [hstream (home t) y, hsame (home t), hsame y]
    exact hw.conserved t y

/-- What holds of the two ports that are written and of all the others holds of every port. -/
theorem forall_update_update {P : N → Port τ → Prop} {a b : N} {u v : Port τ} (hne : a ≠ b)
    (ha : P a u) (hb : P b v) (hother : ∀ x, x ≠ a → x ≠ b → P x (p x)) (x : N) :
    P x (Function.update (Function.update p a u) b v x) := by
  by_cases hxb : x = b
  · subst hxb
    rw [Function.update_self]
    exact hb
  · rw [Function.update_of_ne hxb]
    by_cases hxa : x = a
    · subst hxa
      rw [Function.update_self]
      exact ha
    · rw [Function.update_of_ne hxa]
      exact hother x hxa hxb

/-- **Every step of the network keeps the wires.** -/
theorem Wired.step (hinj : Function.Injective key) (hw : Wired key home p)
    (h : WireStep key home p p') : Wired key home p' := by
  cases h with
  | node h =>
      rename_i n q
      apply hw.of_portSteps
      intro x
      by_cases hx : x = n
      · subst hx
        rw [Function.update_self]
        exact h
      · rw [Function.update_of_ne hx]
        exact .skip
  | linkUp hne hnamed =>
      rename_i a b
      apply hw.linkUp hinj hnamed
      · exact forall_update_update (P := fun x r => r = { p x with peers := r.peers }) hne rfl rfl
          fun _ _ _ => rfl
      · refine forall_update_update (P := fun x r => ∀ c, c ∈ r.peers →
          c ∈ (p x).peers ∨ x = a ∧ c = key b ∨ x = b ∧ c = key a) hne ?_ ?_ ?_
        · intro c hc
          rcases List.mem_append.mp hc with hc | hc
          · exact .inl hc
          · exact .inr (.inl ⟨rfl, List.mem_singleton.mp hc⟩)
        · intro c hc
          rcases List.mem_append.mp hc with hc | hc
          · exact .inl hc
          · exact .inr (.inr ⟨rfl, List.mem_singleton.mp hc⟩)
        · exact fun _ _ _ _ hc => .inl hc
  | transfer hne hpop =>
      rename_i a b m q
      apply hw.transfer hinj hpop
      · exact forall_update_update
          (P := fun x r => r = { p x with out := r.out, inbox := r.inbox }) hne rfl rfl
          fun _ _ _ => rfl
      · refine forall_update_update (P := fun x r => r.out = if x = a then q else (p x).out) hne ?_ ?_ ?_
        · rw [if_pos rfl]
        · rw [if_neg (Ne.symm hne)]
        · intro x hxa _
          rw [if_neg hxa]
      · refine forall_update_update
          (P := fun x r => r.inbox = if x = b then (p b).inbox ++ [(key a, m)] else (p x).inbox) hne ?_ ?_ ?_
        · rw [if_neg hne]
        · rw [if_pos rfl]
        · intro x _ hxb
          rw [if_neg hxb]

end

end CommTest.Zmq
