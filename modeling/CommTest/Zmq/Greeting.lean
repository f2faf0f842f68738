import CommTest.Zmq.Unicast

/-!
# The greeting of a connection

The abstract model behind the question whether a hello can be taken for a task. A `Greeter` is the
part of a node that the question is about: what it has handed to its ROUTER socket and what has
arrived there, the peers it takes tasks of, the destinations it has asked to be connected to, the
identities its socket knows, and the destination it is greeting.

* `GreetStep` is what a node can do to it. It loses, refuses and sends whatever it likes, except
  that the only hello is the one of a connect.
* `Handshake` is the invariant of an ordered pair of nodes: nothing has been sent before one of the
  two has asked for the connection, and at most one hello is under way, in front of everything that
  counts.
* `Greeted.step`: it is kept by every step at which a connect is the first one between its two
  nodes.
* `Greeted.not_hello`: what a node takes as a task is then never a hello.
-/

set_option linter.unusedSectionVars false

namespace CommTest.Zmq

open FairQueue

variable {N τ : Type} [DecidableEq N] [DecidableEq τ]

/-! ## Greeters -/

/-- The hello of a connection, as a comm thread writes it. -/
def Msg.IsHello (m : Msg τ) : Prop := m.origin = .comm ∧ m.data = commHandlerInit

/-- What a node is to the handshake. -/
structure Greeter (τ : Type) where
  out : List (Cliid × Msg τ)
  inbox : List (Cliid × Msg τ)
  known : Cliid → Bool
  named : List Cliid
  peers : List Cliid
  greeting : Option Cliid

/-- What a node can do: nothing; send something that is not a hello to a peer; take a message as a
`sub_hello`, as a hello or as a task; connect and begin to greet; greet. -/
inductive GreetStep (p : Greeter τ) : Greeter τ → Prop
  | skip : GreetStep p p
  | emit {c m} (hpeer : c ∈ p.peers) (hg : p.greeting = none) (hm : ¬ m.IsHello) :
      GreetStep p { p with out := p.out ++ [(c, m)] }
  | suber {c m q} (hpop : pop c p.inbox = some (m, q)) (hd : m.data = commHandlerSubInit) :
      GreetStep p { p with inbox := q }
  | client {c m q} (hpop : pop c p.inbox = some (m, q)) (hd : m.data ≠ commHandlerSubInit) :
      GreetStep p { p with inbox := q, known := Function.update p.known c true }
  | task {c m q} (hpop : pop c p.inbox = some (m, q)) (hk : p.known c = true) :
      GreetStep p { p with inbox := q }
  | connect (dest : Cliid) (hg : p.greeting = none) :
      GreetStep p { p with known := Function.update p.known dest true, named := p.named ++ [dest],
                           greeting := some dest }
  | hello {dest} (hg : p.greeting = some dest) :
      GreetStep p { p with out := p.out ++ [(dest, Msg.mk commHandlerInit .comm)],
                           greeting := none }

/-! ## One connection -/

/-- The messages `q` of a sender under way to a receiver that knows it or not; the sender has asked
for the connection (`named`) or the receiver has (`asked`), and the sender may be greeting. -/
structure Handshake (q : List (Msg τ)) (known named asked greeting : Prop) : Prop where
  fresh : ¬ named → ¬ asked → q = [] ∧ ¬ known
  greets : greeting → named ∧ q = [] ∧ ¬ known
  clean : known → ∀ m ∈ q, ¬ m.IsHello
  tail : ¬ known → ∀ m r, nonSub q = m :: r → ∀ m' ∈ r, ¬ m'.IsHello

theorem Msg.IsHello.data_ne {m : Msg τ} (h : m.IsHello) : m.data ≠ commHandlerSubInit := by
  rw [h.2]
  exact commHandlerInit_ne_commHandlerSubInit

theorem mem_nonSub {q : List (Msg τ)} {m : Msg τ} :
    m ∈ nonSub q ↔ m ∈ q ∧ m.data ≠ commHandlerSubInit := by
  simp [nonSub]

namespace Handshake

variable {q : List (Msg τ)} {m : Msg τ} {known named asked greeting : Prop}

/-- The sender sends something else after the greeting. -/
theorem emit (h : Handshake q known named asked greeting) (hready : named ∨ asked)
    (hg : ¬ greeting) (hm : ¬ m.IsHello) : Handshake (q ++ [m]) known named asked greeting where
  fresh hn ha := absurd hready (by simp [hn, ha])
  greets hg' := absurd hg' hg
  clean hk m' hm' := by
    rcases List.mem_append.mp hm' with hm' | hm'
    · exact h.clean hk m' hm'
    · rw [List.mem_singleton.mp hm']
      exact hm
  tail hk m₀ r hr m' hm' := by
    rw [nonSub_append] at hr
    have hlast : ∀ x ∈ nonSub [m], ¬ x.IsHello := by
      intro x hx
      rw [List.mem_singleton.mp (mem_nonSub.mp hx).1]
      exact hm
    cases hq : nonSub q with
    | nil =>
        rw [hq, List.nil_append] at hr
        exact hlast m' (hr ▸ List.mem_cons_of_mem _ hm')
    | cons m₁ q₁ =>
        rw [hq, List.cons_append, List.cons.injEq] at hr
        rw [← hr.2] at hm'
        rcases List.mem_append.mp hm' with hm' | hm'
        · exact h.tail hk m₁ q₁ hq m' hm'
        · exact hlast m' hm'

/-- The sender greets: nothing was under way. -/
theorem hello (h : Handshake q known named asked greeting) (hg : greeting) (m : Msg τ)
    {greeting' : Prop} (hg' : ¬ greeting') :
    Handshake (q ++ [m]) known named asked greeting' := by
  obtain ⟨hn, hq, hk⟩ := h.greets hg
  refine ⟨fun hn' => absurd hn hn', fun hc => absurd hc hg', fun hk' => absurd hk' hk, ?_⟩
  intro _ m₀ r hr m' hm'
  rw [hq, List.nil_append] at hr
  have hlen : (nonSub [m]).length ≤ 1 := List.length_filter_le _ _
  rw [hr, List.length_cons] at hlen
  rw [List.length_eq_zero_iff.mp (by omega : r.length = 0)] at hm'
  cases hm'

/-- The sender asks for a connection that neither had asked for. -/
theorem connect (h : Handshake q known named asked greeting) (hn : ¬ named) (ha : ¬ asked)
    {named' greeting' : Prop} (hn' : named') :
    Handshake q known named' asked greeting' := by
  obtain ⟨hq, hk⟩ := h.fresh hn ha
  exact ⟨fun hc => absurd hn' hc, fun _ => ⟨hn', hq, hk⟩, h.clean, h.tail⟩

/-- The receiver asks for a connection that neither had asked for, and knows the sender from then
on. -/
theorem askedBack (h : Handshake q known named asked greeting) (hn : ¬ named) (ha : ¬ asked)
    {known' asked' : Prop} (hk' : known') (ha' : asked') :
    Handshake q known' named asked' greeting := by
  obtain ⟨hq, -⟩ := h.fresh hn ha
  refine ⟨fun _ hc => absurd ha' hc, fun hg => absurd (h.greets hg).1 hn, ?_, fun hk => absurd hk' hk⟩
  intro _ m hm
  rw [hq] at hm
  cases hm

/-- While something is under way, one of the two has asked and the sender is not greeting. -/
theorem of_cons {known' : Prop} (h : Handshake (m :: q) known named asked greeting)
    (hknown : known' → ∀ x ∈ q, ¬ x.IsHello)
    (htail : ¬ known' → ∀ m r, nonSub q = m :: r → ∀ m' ∈ r, ¬ m'.IsHello) :
    Handshake q known' named asked greeting := by
  refine ⟨?_, ?_, hknown, htail⟩
  · intro hn ha
    cases (h.fresh hn ha).1
  · intro hg
    cases (h.greets hg).2.1

/-- The receiver takes a `sub_hello`, or a task. -/
theorem take (h : Handshake (m :: q) known named asked greeting)
    (hm : m.data = commHandlerSubInit ∨ known) : Handshake q known named asked greeting := by
  refine h.of_cons (fun hk x hx => h.clean hk x (List.mem_cons_of_mem _ hx)) ?_
  intro hk m₀ r hr
  refine h.tail hk m₀ r ?_
  have hsub : nonSub (m :: q) = nonSub q := by
    simp [nonSub, hm.resolve_right hk]
  rw [hsub, hr]

/-- The receiver takes the first message that counts, and knows the sender from then on. -/
theorem client (h : Handshake (m :: q) known named asked greeting)
    (hm : m.data ≠ commHandlerSubInit) {known' : Prop} (hk' : known') :
    Handshake q known' named asked greeting := by
  refine h.of_cons ?_ (fun hk => absurd hk' hk)
  intro _ x hx hello
  by_cases hk : known
  · exact h.clean hk x (List.mem_cons_of_mem _ hx) hello
  · have hcons : nonSub (m :: q) = m :: nonSub q := by
      simp [nonSub, hm]
    exact h.tail hk m _ hcons x (mem_nonSub.mpr ⟨hx, hello.data_ne⟩) hello

end Handshake

/-! ## What a step of a node does to one connection -/

/-- The sender's side, for destination `c`: it stays quiet, sends something else, greets, or
connects. -/
theorem GreetStep.sender {p q : Greeter τ} (h : GreetStep p q) (c : Cliid) :
    (pipe c q.out = pipe c p.out ∧ (c ∈ q.named ↔ c ∈ p.named) ∧
        (q.greeting = some c → p.greeting = some c)) ∨
    (∃ m, pipe c q.out = pipe c p.out ++ [m] ∧ q.named = p.named ∧ q.greeting = none ∧
        (¬ m.IsHello ∧ c ∈ p.peers ∧ p.greeting = none ∨ p.greeting = some c)) ∨
    (pipe c q.out = pipe c p.out ∧ q.named = p.named ++ [c]) := by
  cases h with
  | skip | suber | client | task => exact .inl ⟨rfl, Iff.rfl, fun h => h⟩
  | emit hpeer hg hm =>
      rename_i dest m
      by_cases hc : dest = c
      · subst hc
        exact .inr (.inl ⟨m, by simp, rfl, hg, .inl ⟨hm, hpeer, hg⟩⟩)
      · exact .inl ⟨by simp [hc], Iff.rfl, fun h => h⟩
  | connect dest hg =>
      by_cases hc : dest = c
      · subst hc
        exact .inr (.inr ⟨rfl, rfl⟩)
      · refine .inl ⟨rfl, by simp [Ne.symm hc], ?_⟩
        intro h
        exact absurd (Option.some.inj h) hc
  | hello hg =>
      rename_i dest
      by_cases hc : dest = c
      · subst hc
        exact .inr (.inl ⟨Msg.mk commHandlerInit .comm, by simp, rfl, rfl, .inr hg⟩)
      · exact .inl ⟨by simp [hc], Iff.rfl, fun h => by cases h⟩

/-- The receiver's side, for peer `c`: it takes nothing of `c`, connects to it, or takes its oldest
message as a `sub_hello` or a task, or as a hello. -/
theorem GreetStep.receiver {p q : Greeter τ} (h : GreetStep p q) (c : Cliid) :
    (pipe c q.inbox = pipe c p.inbox ∧ q.known c = p.known c ∧ (c ∈ q.named ↔ c ∈ p.named)) ∨
    (pipe c q.inbox = pipe c p.inbox ∧ q.known c = true ∧ q.named = p.named ++ [c]) ∨
    (∃ m, pipe c p.inbox = m :: pipe c q.inbox ∧ q.named = p.named ∧
      ((q.known c = p.known c ∧ (m.data = commHandlerSubInit ∨ p.known c = true)) ∨
        (m.data ≠ commHandlerSubInit ∧ q.known c = true))) := by
  cases h with
  | skip | emit | hello => exact .inl ⟨rfl, rfl, Iff.rfl⟩
  | suber hpop hd =>
      rename_i c' m r
      by_cases hc : c = c'
      · subst hc
        exact .inr (.inr ⟨m, pop_pipe hpop, rfl, .inl ⟨rfl, .inl hd⟩⟩)
      · exact .inl ⟨pop_pipe_ne hc hpop, rfl, Iff.rfl⟩
  | client hpop hd =>
      rename_i c' m r
      by_cases hc : c = c'
      · subst hc
        exact .inr (.inr ⟨m, pop_pipe hpop, rfl, .inr ⟨hd, by simp⟩⟩)
      · exact .inl ⟨pop_pipe_ne hc hpop, by simp [hc], Iff.rfl⟩
  | task hpop hk =>
      rename_i c' m r
      by_cases hc : c = c'
      · subst hc
        exact .inr (.inr ⟨m, pop_pipe hpop, rfl, .inl ⟨rfl, .inr hk⟩⟩)
      · exact .inl ⟨pop_pipe_ne hc hpop, rfl, Iff.rfl⟩
  | connect dest hg =>
      by_cases hc : c = dest
      · subst hc
        exact .inr (.inl ⟨rfl, by simp, rfl⟩)
      · exact .inl ⟨rfl, by simp [hc], by simp [hc]⟩

/-! ## The network -/

/-- The messages of `a` for `b` that `b` has not taken, oldest first. -/
def Greeter.stream (key : N → Cliid) (p : N → Greeter τ) (a b : N) : List (Msg τ) :=
  pipe (key a) (p b).inbox ++ pipe (key b) (p a).out

/-- The handshake of the ordered pair `a`, `b`. -/
def PairGreeted (key : N → Cliid) (p : N → Greeter τ) (a b : N) : Prop :=
  Handshake (Greeter.stream key p a b) ((p b).known (key a) = true) (key b ∈ (p a).named)
    (key a ∈ (p b).named) ((p a).greeting = some (key b))

/-- **The invariant of the greetings.** -/
structure Greeted (key : N → Cliid) (p : N → Greeter τ) : Prop where
  peers : ∀ a b, key b ∈ (p a).peers → key b ∈ (p a).named ∨ key a ∈ (p b).named
  own : ∀ a, pipe (key a) (p a).inbox = []
  pair : ∀ a b, a ≠ b → PairGreeted key p a b

section

variable {key : N → Cliid} {p : N → Greeter τ}

/-- **What a known peer sends is not a hello.** -/
theorem Greeted.not_hello (hp : Greeted key p) {a b : N} {m : Msg τ} {q : List (Cliid × Msg τ)}
    (hk : (p b).known (key a) = true) (hpop : pop (key a) (p b).inbox = some (m, q)) :
    ¬ m.IsHello := by
  have hpipe := pop_pipe hpop
  have hab : a ≠ b := by
    rintro rfl
    rw [hp.own a] at hpipe
    cases hpipe
  refine (hp.pair a b hab).clean hk m ?_
  rw [Greeter.stream, hpipe]
  simp

/-- A connect of node `n` is the first one between its two nodes. -/
def FirstBetween (key : N → Cliid) (p : N → Greeter τ) (n : N) (q : Greeter τ) : Prop :=
  ∀ dest, q.named = (p n).named ++ [dest] →
    dest ∉ (p n).named ∧ ∀ b, key b = dest → key n ∉ (p b).named

/-- The sender of a pair steps. -/
theorem PairGreeted.sender (hp : Greeted key p) {a b : N} (hab : a ≠ b) {q : Greeter τ}
    (h : GreetStep (p a) q) (hfirst : FirstBetween key p a q) :
    PairGreeted key (Function.update p a q) a b := by
  have hold := hp.pair a b hab
  unfold PairGreeted Greeter.stream at hold ⊢
  rw [Function.update_self, Function.update_of_ne (Ne.symm hab)]
  rcases h.sender (key b) with ⟨hout, hnamed, hg⟩ | ⟨m, hout, hnamed, hg, hcase⟩ | ⟨hout, hnamed⟩
  · rw [hout, hnamed]
    exact ⟨hold.fresh, fun h => hold.greets (hg h), hold.clean, hold.tail⟩
  · rw [hout, hnamed, hg, ← List.append_assoc]
    rcases hcase with ⟨hm, hpeer, hnone⟩ | hsome
    · rw [hnone] at hold
      exact hold.emit (hp.peers a b hpeer) (by simp) hm
    · exact hold.hello hsome m (by simp)
  · obtain ⟨hn, ha⟩ := hfirst _ hnamed
    rw [hout, hnamed]
    exact hold.connect hn (ha b rfl) (by simp)

/-- The receiver of a pair steps. -/
theorem PairGreeted.receiver (hp : Greeted key p) {a b : N} (hab : a ≠ b) {q : Greeter τ}
    (h : GreetStep (p b) q) (hfirst : FirstBetween key p b q) :
    PairGreeted key (Function.update p b q) a b := by
  have hold := hp.pair a b hab
  unfold PairGreeted Greeter.stream at hold ⊢
  rw [Function.update_self, Function.update_of_ne hab]
  rcases h.receiver (key a) with ⟨hin, hk, hnamed⟩ | ⟨hin, hk, hnamed⟩ | ⟨m, hin, hnamed, hcase⟩
  · rw [hin, hk, hnamed]
    exact hold
  · obtain ⟨hn, ha⟩ := hfirst _ hnamed
    rw [hin, hk, hnamed]
    exact hold.askedBack (ha a rfl) hn rfl (by simp)
  · rw [hin, List.cons_append] at hold
    rw [hnamed]
    rcases hcase with ⟨hk, hm⟩ | ⟨hm, hk⟩
    · rw [hk]
      exact hold.take hm
    · exact hold.client hm hk

theorem mem_named_update {a x : N} {q : Greeter τ} (hsub : (p a).named ⊆ q.named) :
    (p x).named ⊆ (Function.update p a q x).named := by
  by_cases hx : x = a
  · subst hx
    rw [Function.update_self]
    exact hsub
  · rw [Function.update_of_ne hx]
    exact List.Subset.refl _

/-- Nothing is forgotten of what was asked for, and the peers stay. -/
theorem GreetStep.frame {p q : Greeter τ} (h : GreetStep p q) :
    p.named ⊆ q.named ∧ q.peers = p.peers := by
  cases h with
  | connect => exact ⟨List.subset_append_left _ _, rfl⟩
  | _ => exact ⟨List.Subset.refl _, rfl⟩

/-- **A step of one node keeps the greetings**, if a connect is the first one between its nodes. -/
theorem Greeted.node (hp : Greeted key p) {n : N} {q : Greeter τ} (h : GreetStep (p n) q)
    (hfirst : FirstBetween key p n q) : Greeted key (Function.update p n q) := by
  obtain ⟨hsub, hpeers⟩ := h.frame
  refine ⟨?_, ?_, ?_⟩
  · intro a b hpeer
    have hold : key b ∈ (p a).peers := by
      by_cases ha : a = n
      · subst ha
        rw [Function.update_self, hpeers] at hpeer
        exact hpeer
      · rwa [Function.update_of_ne ha] at hpeer
    exact (hp.peers a b hold).imp (fun h => mem_named_update hsub h)
      fun h => mem_named_update hsub h
  · intro a
    by_cases ha : a = n
    · subst ha
      rw [Function.update_self]
      have hown := hp.own a
      rcases h.receiver (key a) with ⟨hin, -⟩ | ⟨hin, -⟩ | ⟨m, hin, -⟩
      · rw [hin, hown]
      · rw [hin, hown]
      · rw [hown] at hin
        cases hin
    · rw [Function.update_of_ne ha]
      exact hp.own a
  · intro a b hab
    by_cases ha : a = n
    · subst ha
      exact PairGreeted.sender hp hab h hfirst
    · by_cases hb : b = n
      · subst hb
        exact PairGreeted.receiver hp hab h hfirst
      · unfold PairGreeted Greeter.stream
        rw [Function.update_of_ne ha, Function.update_of_ne hb]
        exact hp.pair a b hab

/-- What the wires do leaves every node as it was but for its peers and the messages under way. -/
theorem Greeted.wire {p' : N → Greeter τ} (hp : Greeted key p)
    (hpeers : ∀ a b, key b ∈ (p' a).peers → key b ∈ (p a).named ∨ key a ∈ (p b).named)
    (hown : ∀ a, pipe (key a) (p' a).inbox = pipe (key a) (p a).inbox)
    (hstream : ∀ a b, Greeter.stream key p' a b = Greeter.stream key p a b)
    (hsame : ∀ a, (p' a).known = (p a).known ∧ (p' a).named = (p a).named ∧
      (p' a).greeting = (p a).greeting) : Greeted key p' := by
  refine ⟨?_, ?_, ?_⟩
  · intro a b hpeer
    rw [(hsame a).2.1, (hsame b).2.1]
    exact hpeers a b hpeer
  · intro a
    rw [hown, hp.own]
  · intro a b hab
    unfold PairGreeted
    rw [hstream, (hsame b).1, (hsame a).2.1, (hsame b).2.1, (hsame a).2.2]
    exact hp.pair a b hab

/-- A function of one node after two nodes are written. -/
theorem apply_update₂ {β : Type*} (f : Greeter τ → β) (p : N → Greeter τ) (a b : N) (s u : Greeter τ)
    (hs : f s = f (p a)) (hu : f u = f (p b)) (x : N) :
    f (Function.update (Function.update p a s) b u x) = f (p x) := by
  by_cases hxb : x = b
  · subst hxb
    rw [Function.update_self, hu]
  · rw [Function.update_of_ne hxb]
    by_cases hxa : x = a
    · subst hxa
      rw [Function.update_self, hs]
    · rw [Function.update_of_ne hxa]

/-- Two writes that leave what the greetings turn on leave it at every node. -/
theorem greeting_update₂ (p : N → Greeter τ) (a b : N) (s u : Greeter τ)
    (hs : s.known = (p a).known ∧ s.named = (p a).named ∧ s.greeting = (p a).greeting)
    (hu : u.known = (p b).known ∧ u.named = (p b).named ∧ u.greeting = (p b).greeting) (x : N) :
    (Function.update (Function.update p a s) b u x).known = (p x).known ∧
      (Function.update (Function.update p a s) b u x).named = (p x).named ∧
      (Function.update (Function.update p a s) b u x).greeting = (p x).greeting := by
  refine ⟨?_, ?_, ?_⟩
  · exact apply_update₂ Greeter.known p a b s u hs.1 hu.1 x
  · exact apply_update₂ Greeter.named p a b s u hs.2.1 hu.2.1 x
  · exact apply_update₂ Greeter.greeting p a b s u hs.2.2 hu.2.2 x

/-- A connection comes up that `a` has asked for. -/
theorem Greeted.linkUp (hinj : Function.Injective key) (hp : Greeted key p) {a b : N}
    (hnamed : key b ∈ (p a).named) :
    Greeted key (Function.update (Function.update p a { p a with peers := (p a).peers ++ [key b] }) b
      { p b with peers := (p b).peers ++ [key a] }) := by
  set s : Greeter τ := { p a with peers := (p a).peers ++ [key b] }
  set u : Greeter τ := { p b with peers := (p b).peers ++ [key a] }
  have hout : ∀ x, (Function.update (Function.update p a s) b u x).out = (p x).out :=
    apply_update₂ Greeter.out p a b s u rfl rfl
  have hin : ∀ x, (Function.update (Function.update p a s) b u x).inbox = (p x).inbox :=
    apply_update₂ Greeter.inbox p a b s u rfl rfl
  refine hp.wire ?_ ?_ ?_ ?_
  · intro x y hpeer
    by_cases hxb : x = b
    · subst hxb
      rw [Function.update_self] at hpeer
      rcases List.mem_append.mp hpeer with hpeer | hpeer
      · exact hp.peers x y hpeer
      · have hya : y = a := hinj (List.mem_singleton.mp hpeer)
        subst hya
        exact .inr hnamed
    · rw [Function.update_of_ne hxb] at hpeer
      by_cases hxa : x = a
      · subst hxa
        rw [Function.update_self] at hpeer
        rcases List.mem_append.mp hpeer with hpeer | hpeer
        · exact hp.peers x y hpeer
        · have hyb : y = b := hinj (List.mem_singleton.mp hpeer)
          subst hyb
          exact .inl hnamed
      · rw [Function.update_of_ne hxa] at hpeer
        exact hp.peers x y hpeer
  · intro x
    rw [hin]
  · intro x y
    unfold Greeter.stream
    rw [hin, hout]
  · exact greeting_update₂ p a b s u ⟨rfl, rfl, rfl⟩ ⟨rfl, rfl, rfl⟩

/-- The connection carries the oldest message of `a` for `b` over. -/
theorem Greeted.transfer (hinj : Function.Injective key) (hp : Greeted key p) {a b : N} (hne : a ≠ b)
    {m : Msg τ} {q : List (Cliid × Msg τ)} (hpop : pop (key b) (p a).out = some (m, q)) :
    Greeted key (Function.update (Function.update p a { p a with out := q }) b
      { p b with inbox := (p b).inbox ++ [(key a, m)] }) := by
  set s : Greeter τ := { p a with out := q }
  set u : Greeter τ := { p b with inbox := (p b).inbox ++ [(key a, m)] }
  have hin : ∀ x y, pipe (key x) (Function.update (Function.update p a s) b u y).inbox =
      pipe (key x) (p y).inbox ++ if x = a ∧ y = b then [m] else [] := by
    intro x y
    by_cases hy : y = b
    · subst hy
      rw [Function.update_self, show u.inbox = _ from rfl, pipe_append]
      by_cases hx : x = a
      · simp [hx]
      · have hkey : key a ≠ key x := fun h => hx (hinj h).symm
        simp [hx, hkey]
    · rw [Function.update_of_ne hy]
      by_cases hya : y = a
      · subst hya
        rw [Function.update_self]
        simp [s, hy]
      · rw [Function.update_of_ne hya]
        simp [hy]
  have hout : ∀ x y, pipe (key y) (p x).out = (if x = a ∧ y = b then [m] else []) ++
      pipe (key y) (Function.update (Function.update p a s) b u x).out := by
    intro x y
    by_cases hx : x = a
    · subst hx
      rw [Function.update_of_ne hne, Function.update_self]
      by_cases hy : y = b
      · subst hy
        simpa using pop_pipe hpop
      · have hkey : key y ≠ key b := fun h => hy (hinj h)
        simpa [hy] using (pop_pipe_ne hkey hpop).symm
    · by_cases hxb : x = b
      · subst hxb
        rw [Function.update_self]
        simp [u, hx]
      · rw [Function.update_of_ne hxb, Function.update_of_ne hx]
        simp [hx]
  refine hp.wire ?_ ?_ ?_ ?_
  · intro x y hpeer
    rw [apply_update₂ Greeter.peers p a b s u rfl rfl x] at hpeer
    exact hp.peers x y hpeer
  · intro x
    have hxx : ¬ (x = a ∧ x = b) := by
      rintro ⟨rfl, h⟩
      exact hne h
    rw [hin, if_neg hxx, List.append_nil]
  · intro x y
    unfold Greeter.stream
    rw [hin, hout x y, List.append_assoc]
  · exact greeting_update₂ p a b s u ⟨rfl, rfl, rfl⟩ ⟨rfl, rfl, rfl⟩

end

end CommTest.Zmq
