import CommTest.Zmq.Transitions
import Mathlib.Data.List.Nodup
import Mathlib.Data.List.Perm.Subperm

/-!
# The router demultiplexer

What the comm thread does with the messages of its ROUTER socket depends on their content and on
`clientmap`, which two event blocks write: the router block (first contact) and the block of
`conn_sock`. `Demux` is that part of the state on its own, with the queues as everything pushed so
far, and `Demux.run` folds a sequence of events over it from empty maps.

`Demux.TraceLaw` says per peer where every message goes. With `R` the messages of `c` that are not a
`sub_hello`: `suberq` has the others, in order; `clientq` has `c` once if the first of `R` came
before any connect request for `c`, and never otherwise; `taskq` has `R`, less its first message in
that case. No entry of `clientmap` is ever `false`.

The length of a message is an `int` here: what the block compares and sends on is the message cut to
that length (`clip`), and a negative length ends the thread. `law_clip` is the law of the messages as
they are cut, and `traceLaw_iff_uncut` says for which sequences it is the law of the messages as they
came (`Uncut`).

`demux_of_exec` connects the abstraction to the node: along every run without multicast tasks and
without failing pushes, the node's queues are those of `Demux.run` on the events it handled.
-/

set_option linter.unusedSectionVars false

namespace CommTest.Zmq

open FairQueue Lts CommHandler

/-! ## Events -/

/-- What the demultiplexer handles: a router message of peer `c`, or a connect request for `dest`
that was served. -/
inductive DemuxEvent
  | message (c : Cliid) (data : Bytes)
  | connect (dest : Cliid)
  deriving DecidableEq

/-- `clientmap` and the three queues the router block feeds. -/
structure Demux where
  clientmap : Cliid → Option Bool
  clientq : List Cliid
  suberq : List (Cliid × Bytes)
  taskq : List (Cliid × Bytes)

namespace Demux

/-- Empty maps and queues. -/
def empty : Demux where
  clientmap := fun _ => none
  clientq := []
  suberq := []
  taskq := []

/-- One event. A message whose length is negative goes nowhere. Source: `comm_handler.cpp`,
`start_handler`, `router_sock` and `conn_sock` blocks. -/
def handle (d : Demux) : DemuxEvent → Demux
  | .message c data =>
      if recvLen data < 0 then d
      else
        match routerDest d.clientmap c data with
        | .suber => { d with suberq := d.suberq ++ [(c, forwarded data)] }
        | .newClient | .reconnected =>
            { d with clientmap := Function.update d.clientmap c (some true),
                     clientq := d.clientq ++ [idi2e c] }
        | .task => { d with taskq := d.taskq ++ [(c, forwarded data)] }
  | .connect dest => { d with clientmap := Function.update d.clientmap dest (some true) }

/-- A sequence of events, from empty maps. -/
def run (evs : List DemuxEvent) : Demux := evs.foldl handle empty

/-! ## The per-peer reading of an event sequence -/

/-- The messages of `c`, in arrival order. -/
def messagesOf (c : Cliid) (evs : List DemuxEvent) : List Bytes :=
  evs.filterMap fun
    | .message c' data => if c' = c then some data else none
    | .connect _ => none

/-- The messages of `c` that are not exactly a `sub_hello`, in arrival order: `R`. -/
def tasksOf (c : Cliid) (evs : List DemuxEvent) : List Bytes :=
  (messagesOf c evs).filter (· ≠ commHandlerSubInit)

/-- The messages of `c` that are exactly a `sub_hello`, in arrival order. -/
def subHellosOf (c : Cliid) (evs : List DemuxEvent) : List Bytes :=
  (messagesOf c evs).filter (· = commHandlerSubInit)

/-- The first of the `tasksOf c` was handled before any connect request for `c`. -/
def FirstContact (c : Cliid) (evs : List DemuxEvent) : Prop :=
  ∃ pre data post, evs = pre ++ .message c data :: post ∧ data ≠ commHandlerSubInit ∧
    tasksOf c pre = [] ∧ .connect c ∉ pre

/-- The ids of an event sequence are internal ids, as every node announces itself with one and
`connect_to` sends one. -/
def Internal (evs : List DemuxEvent) : Prop :=
  ∀ e ∈ evs, ∃ x, e = .connect (ide2i x) ∨ ∃ data, e = .message (ide2i x) data

/-- No message has a negative length. -/
def Readable (evs : List DemuxEvent) : Prop :=
  ∀ c data, .message c data ∈ evs → ¬ recvLen data < 0

/-- The thread handled the whole sequence: behind a message with a negative length it handles
nothing. -/
def Handled (evs : List DemuxEvent) : Prop :=
  ∀ pre c data post, evs = pre ++ .message c data :: post → recvLen data < 0 → post = []

/-- **The trace law** for peer `c`: `suberq` receives the `sub_hello`s of `c` in order; `clientq`
receives one entry for each peer of first contact and no other (and, among internal ids, these
entries have different values); `taskq` receives the other messages of `c` in order, without the
first one exactly if it was a first contact; `clientmap` never holds `false`. -/
structure TraceLaw (evs : List DemuxEvent) (c : Cliid) : Prop where
  suberq : pipe c (run evs).suberq = subHellosOf c evs
  clientq : ∃ fc : List Cliid, (run evs).clientq = fc.map idi2e ∧ fc.Nodup ∧
    ∀ c', c' ∈ fc ↔ FirstContact c' evs
  count : Internal evs → ∀ x, c = ide2i x →
    (FirstContact c evs → (run evs).clientq.count (idi2e c) = 1) ∧
    (¬ FirstContact c evs → (run evs).clientq.count (idi2e c) = 0)
  first : FirstContact c evs → pipe c (run evs).taskq = (tasksOf c evs).tail
  tasks : ¬ FirstContact c evs → pipe c (run evs).taskq = tasksOf c evs
  known : (run evs).clientmap c ≠ some false
  never : ∀ data, routerDest (run evs).clientmap c data ≠ .reconnected

/-- No message is cut in a way that shows: none has a negative length, none becomes a `sub_hello` by
the cut, and every other one is shorter than `2^31` bytes unless it is a first contact. -/
structure Uncut (evs : List DemuxEvent) : Prop where
  readable : Readable evs
  answers : ∀ c, ∀ data ∈ messagesOf c evs,
    forwarded data = commHandlerSubInit → data = commHandlerSubInit
  first : ∀ c, FirstContact c evs → ∀ data ∈ (tasksOf c evs).tail, data.length < 2 ^ 31
  tasks : ∀ c, ¬ FirstContact c evs → ∀ data ∈ tasksOf c evs, data.length < 2 ^ 31

/-! ## One more event -/

theorem run_concat (evs : List DemuxEvent) (e : DemuxEvent) :
    run (evs ++ [e]) = (run evs).handle e := by
  simp [run, List.foldl_append]

theorem messagesOf_concat_message (c c' : Cliid) (data : Bytes) (evs : List DemuxEvent) :
    messagesOf c (evs ++ [.message c' data]) =
      messagesOf c evs ++ if c' = c then [data] else [] := by
  by_cases h : c' = c <;> simp [messagesOf, h]

theorem messagesOf_concat_connect (c dest : Cliid) (evs : List DemuxEvent) :
    messagesOf c (evs ++ [.connect dest]) = messagesOf c evs := by
  simp [messagesOf]

theorem tasksOf_concat_message (c c' : Cliid) (data : Bytes) (evs : List DemuxEvent) :
    tasksOf c (evs ++ [.message c' data]) =
      tasksOf c evs ++ if c' = c ∧ data ≠ commHandlerSubInit then [data] else [] := by
  rw [tasksOf, messagesOf_concat_message, List.filter_append, ← tasksOf]
  by_cases h : c' = c <;> by_cases hd : data = commHandlerSubInit <;> simp [h, hd]

theorem subHellosOf_concat_message (c c' : Cliid) (data : Bytes) (evs : List DemuxEvent) :
    subHellosOf c (evs ++ [.message c' data]) =
      subHellosOf c evs ++ if c' = c ∧ data = commHandlerSubInit then [data] else [] := by
  rw [subHellosOf, messagesOf_concat_message, List.filter_append, ← subHellosOf]
  by_cases h : c' = c <;> by_cases hd : data = commHandlerSubInit <;> simp [h, hd]

/-- A new event makes a first contact only if it is a task message of a peer of which nothing was
handled yet. -/
theorem firstContact_concat (c : Cliid) (evs : List DemuxEvent) (e : DemuxEvent) :
    FirstContact c (evs ++ [e]) ↔ FirstContact c evs ∨
      (∃ data, e = .message c data ∧ data ≠ commHandlerSubInit) ∧ tasksOf c evs = [] ∧
        .connect c ∉ evs := by
  constructor
  · rintro ⟨pre, data, post, heq, hd, ht, hc⟩
    rcases List.eq_nil_or_concat post with rfl | ⟨post', e', rfl⟩
    · obtain ⟨rfl, he⟩ := List.append_inj' heq rfl
      simp only [List.cons.injEq, and_true] at he
      exact .inr ⟨⟨data, he, hd⟩, ht, hc⟩
    · rw [List.concat_eq_append, ← List.cons_append, ← List.append_assoc] at heq
      obtain ⟨rfl, -⟩ := List.append_inj' heq rfl
      exact .inl ⟨pre, data, post', rfl, hd, ht, hc⟩
  · rintro (⟨pre, data, post, rfl, hd, ht, hc⟩ | ⟨⟨data, rfl, hd⟩, ht, hc⟩)
    · exact ⟨pre, data, post ++ [e], by simp, hd, ht, hc⟩
    · exact ⟨evs, data, [], rfl, hd, ht, hc⟩

/-- A peer with a first contact has sent a task message. -/
theorem FirstContact.tasksOf_ne_nil {c : Cliid} {evs : List DemuxEvent} (h : FirstContact c evs) :
    tasksOf c evs ≠ [] := by
  obtain ⟨pre, data, post, rfl, hd, -, -⟩ := h
  intro hnil
  have hmem : data ∈ tasksOf c (pre ++ .message c data :: post) := by
    simp [tasksOf, messagesOf, hd]
  rw [hnil] at hmem
  cases hmem

/-! ## The invariant -/

/-- The relation between the events handled and the state: the fourth field says which entries
`clientmap` has, the others where the messages went. -/
structure Law (evs : List DemuxEvent) (d : Demux) : Prop where
  suberq : ∀ c, pipe c d.suberq = subHellosOf c evs
  clientq : ∃ fc : List Cliid, d.clientq = fc.map idi2e ∧ fc.Nodup ∧
    ∀ c, c ∈ fc ↔ FirstContact c evs
  taskq : ∀ c, (FirstContact c evs → pipe c d.taskq = (tasksOf c evs).tail) ∧
    (¬ FirstContact c evs → pipe c d.taskq = tasksOf c evs)
  known : ∀ c, d.clientmap c = some true ∧ (.connect c ∈ evs ∨ tasksOf c evs ≠ []) ∨
    d.clientmap c = none ∧ .connect c ∉ evs ∧ tasksOf c evs = []

theorem law_empty : Law [] empty where
  suberq _ := rfl
  clientq := by
    refine ⟨[], rfl, List.nodup_nil, ?_⟩
    intro c
    simp [FirstContact]
  taskq c := ⟨fun h => absurd rfl h.tasksOf_ne_nil, fun _ => rfl⟩
  known c := .inr ⟨rfl, by simp, rfl⟩

/-- Without a new first contact `clientq` stays as it is. -/
theorem Law.clientq_congr {evs evs' : List DemuxEvent} {d : Demux} (hd : Law evs d)
    (hfirst : ∀ c, FirstContact c evs' ↔ FirstContact c evs) :
    ∃ fc : List Cliid, d.clientq = fc.map idi2e ∧ fc.Nodup ∧ ∀ c, c ∈ fc ↔ FirstContact c evs' := by
  obtain ⟨fc, h1, h2, h3⟩ := hd.clientq
  exact ⟨fc, h1, h2, fun c => (h3 c).trans (hfirst c).symm⟩

theorem law_connect {evs : List DemuxEvent} {d : Demux} (hd : Law evs d) (dest : Cliid) :
    Law (evs ++ [.connect dest]) (d.handle (.connect dest)) := by
  have htasks : ∀ c, tasksOf c (evs ++ [.connect dest]) = tasksOf c evs := by
    intro c
    rw [tasksOf, messagesOf_concat_connect, ← tasksOf]
  have hfirst : ∀ c, FirstContact c (evs ++ [.connect dest]) ↔ FirstContact c evs := by
    intro c
    rw [firstContact_concat]
    simp
  refine ⟨?_, ?_, ?_, ?_⟩
  · intro c
    rw [subHellosOf, messagesOf_concat_connect, ← subHellosOf]
    exact hd.suberq c
  · exact hd.clientq_congr hfirst
  · intro c
    rw [hfirst c, htasks c]
    exact hd.taskq c
  · intro c
    rw [htasks c]
    by_cases hc : c = dest
    · subst hc
      exact .inl ⟨by simp [handle], .inl (by simp)⟩
    · rcases hd.known c with ⟨hm, h⟩ | ⟨hm, h, ht⟩
      · exact .inl ⟨by simpa [handle, hc] using hm, h.imp_left fun h => by simp [h]⟩
      · exact .inr ⟨by simpa [handle, hc] using hm, by simp [h, hc], ht⟩

theorem law_suber {evs : List DemuxEvent} {d : Demux} (hd : Law evs d) (c' : Cliid) :
    Law (evs ++ [.message c' commHandlerSubInit]) (d.handle (.message c' commHandlerSubInit)) := by
  have hsub : IsSubInit commHandlerSubInit := by decide
  have hlen : ¬ recvLen commHandlerSubInit < 0 := by decide
  have hdest : d.handle (.message c' commHandlerSubInit) =
      { d with suberq := d.suberq ++ [(c', commHandlerSubInit)] } := by
    simp [handle, routerDest, hsub, hlen, isSubInit_iff.mp hsub]
  have htasks : ∀ c, tasksOf c (evs ++ [.message c' commHandlerSubInit]) = tasksOf c evs := by
    intro c
    simp [tasksOf_concat_message]
  have hfirst : ∀ c, FirstContact c (evs ++ [.message c' commHandlerSubInit]) ↔
      FirstContact c evs := by
    intro c
    rw [firstContact_concat]
    simp
  rw [hdest]
  refine ⟨?_, ?_, ?_, ?_⟩
  · intro c
    rw [subHellosOf_concat_message, ← hd.suberq c]
    by_cases hc : c' = c <;> simp [hc]
  · exact hd.clientq_congr hfirst
  · intro c
    rw [hfirst c, htasks c]
    exact hd.taskq c
  · intro c
    rw [htasks c]
    simpa using hd.known c

theorem law_newClient {evs : List DemuxEvent} {d : Demux} (hd : Law evs d) {c' : Cliid}
    {data : Bytes} (hfit : data.length < 2 ^ 31) (hdata : data ≠ commHandlerSubInit)
    (hmap : d.clientmap c' = none) :
    Law (evs ++ [.message c' data]) (d.handle (.message c' data)) := by
  have hdest : d.handle (.message c' data) =
      { d with clientmap := Function.update d.clientmap c' (some true),
               clientq := d.clientq ++ [idi2e c'] } := by
    simp [handle, routerDest, isSubInit_iff, forwarded_of_lt hfit, recvLen_nonneg_of_lt hfit, hdata, hmap]
  -- nothing of this peer was handled before
  obtain ⟨hconn, hnil⟩ : .connect c' ∉ evs ∧ tasksOf c' evs = [] := by
    rcases hd.known c' with ⟨hm, _⟩ | ⟨_, h⟩
    · rw [hmap] at hm
      cases hm
    · exact h
  have hnot : ¬ FirstContact c' evs := fun h => h.tasksOf_ne_nil hnil
  have hfirst : ∀ c, FirstContact c (evs ++ [.message c' data]) ↔ FirstContact c evs ∨ c = c' := by
    intro c
    rw [firstContact_concat]
    constructor
    · rintro (h | ⟨⟨_, he, _⟩, _⟩)
      · exact .inl h
      · cases he
        exact .inr rfl
    · rintro (h | rfl)
      · exact .inl h
      · exact .inr ⟨⟨data, rfl, hdata⟩, hnil, hconn⟩
  rw [hdest]
  refine ⟨?_, ?_, ?_, ?_⟩
  · intro c
    rw [subHellosOf_concat_message, hd.suberq c]
    simp [hdata]
  · obtain ⟨fc, h1, h2, h3⟩ := hd.clientq
    refine ⟨fc ++ [c'], by simp [h1], ?_, ?_⟩
    · rw [List.nodup_append]
      refine ⟨h2, List.nodup_singleton _, ?_⟩
      intro a ha b hb hab
      rw [List.mem_singleton] at hb
      subst hab hb
      exact hnot ((h3 _).mp ha)
    · intro c
      rw [hfirst c, List.mem_append, h3 c, List.mem_singleton]
  · intro c
    rw [hfirst c, tasksOf_concat_message]
    by_cases hc : c' = c
    · subst hc
      refine ⟨fun _ => ?_, fun h => absurd (.inr rfl) h⟩
      simp [hnil, (hd.taskq c').2 hnot, hdata]
    · have hne : c ≠ c' := fun h => hc h.symm
      simpa [hc, hne] using hd.taskq c
  · intro c
    rw [tasksOf_concat_message]
    by_cases hc : c' = c
    · subst hc
      exact .inl ⟨by simp, .inr (by simp [hdata])⟩
    · have hne : c ≠ c' := fun h => hc h.symm
      simpa [hc, hne] using hd.known c

theorem law_task {evs : List DemuxEvent} {d : Demux} (hd : Law evs d) {c' : Cliid} {data : Bytes}
    (hfit : data.length < 2 ^ 31) (hdata : data ≠ commHandlerSubInit)
    (hmap : d.clientmap c' = some true) :
    Law (evs ++ [.message c' data]) (d.handle (.message c' data)) := by
  have hdest : d.handle (.message c' data) = { d with taskq := d.taskq ++ [(c', data)] } := by
    simp [handle, routerDest, isSubInit_iff, forwarded_of_lt hfit, recvLen_nonneg_of_lt hfit, hdata, hmap]
  have hseen : .connect c' ∈ evs ∨ tasksOf c' evs ≠ [] := by
    rcases hd.known c' with ⟨_, h⟩ | ⟨hm, _⟩
    · exact h
    · rw [hmap] at hm
      cases hm
  have hfirst : ∀ c, FirstContact c (evs ++ [.message c' data]) ↔ FirstContact c evs := by
    intro c
    rw [firstContact_concat]
    refine ⟨?_, .inl⟩
    rintro (h | ⟨⟨_, he, _⟩, hnil, hconn⟩)
    · exact h
    · cases he
      rcases hseen with h | h
      · exact absurd h hconn
      · exact absurd hnil h
  rw [hdest]
  refine ⟨?_, ?_, ?_, ?_⟩
  · intro c
    rw [subHellosOf_concat_message, hd.suberq c]
    simp [hdata]
  · exact hd.clientq_congr hfirst
  · intro c
    rw [hfirst c, tasksOf_concat_message]
    by_cases hc : c' = c
    · subst hc
      refine ⟨fun h => ?_, fun h => ?_⟩
      · rw [List.tail_append_of_ne_nil h.tasksOf_ne_nil]
        simp [(hd.taskq c').1 h, hdata]
      · simp [(hd.taskq c').2 h, hdata]
    · simpa [hc] using hd.taskq c
  · intro c
    rw [tasksOf_concat_message]
    by_cases hc : c' = c
    · subst hc
      exact .inl ⟨hmap, .inr (by simp [hdata])⟩
    · simpa [hc] using hd.known c

theorem law_handle {evs : List DemuxEvent} {d : Demux} (hd : Law evs d) (e : DemuxEvent)
    (hfit : ∀ c data, e = .message c data → data.length < 2 ^ 31) :
    Law (evs ++ [e]) (d.handle e) := by
  cases e with
  | connect dest => exact law_connect hd dest
  | message c data =>
      by_cases hdata : data = commHandlerSubInit
      · subst hdata
        exact law_suber hd c
      · rcases hd.known c with ⟨hm, _⟩ | ⟨hm, _⟩
        · exact law_task hd (hfit c data rfl) hdata hm
        · exact law_newClient hd (hfit c data rfl) hdata hm

theorem law_run (evs : List DemuxEvent)
    (hfit : ∀ c data, .message c data ∈ evs → data.length < 2 ^ 31) : Law evs (run evs) := by
  induction evs using List.reverseRecOn with
  | nil => exact law_empty
  | append_singleton evs e ih =>
      rw [run_concat]
      apply law_handle (ih fun c data he => hfit c data (List.mem_append_left _ he)) e
      rintro c data rfl
      exact hfit c data (List.mem_append_right _ (List.mem_singleton.mpr rfl))

/-! ## Messages as they are cut -/

/-- The event with its message cut to its length as an `int`. -/
def clip : DemuxEvent → DemuxEvent
  | .message c data => .message c (forwarded data)
  | .connect dest => .connect dest

/-- The block looks at a message through the cut. -/
theorem handle_clip (d : Demux) {e : DemuxEvent}
    (hlen : ∀ c data, e = .message c data → ¬ recvLen data < 0) : d.handle (clip e) = d.handle e := by
  cases e with
  | connect dest => rfl
  | message c data =>
      have hlt := length_forwarded_lt data
      have hdest : routerDest d.clientmap c (forwarded data) = routerDest d.clientmap c data := by
        simp only [routerDest, isSubInit_iff, forwarded_of_lt hlt]
      simp only [clip, handle, hdest, forwarded_of_lt hlt, recvLen_nonneg_of_lt hlt, hlen c data rfl,
        if_false]

theorem run_clip {evs : List DemuxEvent} (hread : Readable evs) : run (evs.map clip) = run evs := by
  induction evs using List.reverseRecOn with
  | nil => rfl
  | append_singleton evs e ih =>
      rw [List.map_append, List.map_singleton, run_concat, run_concat,
        ih fun c data he => hread c data (List.mem_append_left _ he)]
      apply handle_clip
      rintro c data rfl
      exact hread c data (List.mem_append_right _ (List.mem_singleton.mpr rfl))

/-- **The law of the messages as they are cut.** -/
theorem law_clip {evs : List DemuxEvent} (hread : Readable evs) : Law (evs.map clip) (run evs) := by
  rw [← run_clip hread]
  apply law_run
  intro c data he
  obtain ⟨e, -, heq⟩ := List.mem_map.mp he
  cases e with
  | connect dest => cases heq
  | message c' data' =>
      cases heq
      exact length_forwarded_lt data'

theorem messagesOf_clip (c : Cliid) (evs : List DemuxEvent) :
    messagesOf c (evs.map clip) = (messagesOf c evs).map forwarded := by
  rw [messagesOf, messagesOf, List.filterMap_map, List.map_filterMap]
  apply List.filterMap_congr
  intro e _
  cases e with
  | connect dest => rfl
  | message c' data =>
      by_cases h : c' = c <;> simp [clip, h]

theorem forwarded_commHandlerSubInit : forwarded commHandlerSubInit = commHandlerSubInit := by decide

/-- The cut makes `sub_hello`s and loses none. -/
theorem subHellosOf_clip (c : Cliid) (evs : List DemuxEvent) :
    subHellosOf c (evs.map clip) =
      ((messagesOf c evs).filter (forwarded · = commHandlerSubInit)).map forwarded := by
  rw [subHellosOf, messagesOf_clip, List.filter_map]
  rfl

section

variable {evs : List DemuxEvent}

theorem map_eq_self {q : List Bytes} (h : ∀ data ∈ q, forwarded data = data) : q.map forwarded = q :=
  (List.map_congr_left h).trans (List.map_id q)

/-- The messages of `c` that are a `sub_hello` as they are cut are as many as those that came as
one only if they are the same messages. -/
theorem answers_of_subHellosOf {c : Cliid}
    (h : subHellosOf c (evs.map clip) = subHellosOf c evs) :
    ∀ data ∈ messagesOf c evs, forwarded data = commHandlerSubInit → data = commHandlerSubInit := by
  intro data hmem hcut
  have hsub : subHellosOf c evs =
      ((messagesOf c evs).filter (forwarded · = commHandlerSubInit)).filter
        (· = commHandlerSubInit) := by
    rw [subHellosOf, List.filter_filter]
    apply List.filter_congr
    intro m _
    by_cases hm : m = commHandlerSubInit
    · simp [hm, forwarded_commHandlerSubInit]
    · simp [hm]
  have hsame : subHellosOf c evs = (messagesOf c evs).filter (forwarded · = commHandlerSubInit) := by
    rw [hsub]
    apply List.filter_sublist.eq_of_length
    rw [← hsub, ← h, subHellosOf_clip, List.length_map]
  have hin : data ∈ subHellosOf c evs := by
    rw [hsame]
    exact List.mem_filter.mpr ⟨hmem, decide_eq_true hcut⟩
  exact of_decide_eq_true (List.mem_filter.mp hin).2

/-- Messages of which none becomes a `sub_hello`. -/
def KeepsAnswers (evs : List DemuxEvent) : Prop :=
  ∀ c, ∀ data ∈ messagesOf c evs, forwarded data = commHandlerSubInit → data = commHandlerSubInit

theorem KeepsAnswers.iff (h : KeepsAnswers evs) {c : Cliid} {data : Bytes}
    (hmem : data ∈ messagesOf c evs) :
    forwarded data = commHandlerSubInit ↔ data = commHandlerSubInit := by
  refine ⟨h c data hmem, ?_⟩
  rintro rfl
  exact forwarded_commHandlerSubInit

theorem KeepsAnswers.subHellosOf (h : KeepsAnswers evs) (c : Cliid) :
    subHellosOf c (evs.map clip) = subHellosOf c evs := by
  have hsame : (messagesOf c evs).filter (forwarded · = commHandlerSubInit) =
      Demux.subHellosOf c evs := by
    apply List.filter_congr
    intro data hmem
    exact decide_eq_decide.mpr (h.iff hmem)
  rw [subHellosOf_clip, hsame]
  apply map_eq_self
  intro data hmem
  rw [of_decide_eq_true (List.mem_filter.mp hmem).2]
  exact forwarded_commHandlerSubInit

theorem KeepsAnswers.tasksOf (h : KeepsAnswers evs) (c : Cliid) :
    tasksOf c (evs.map clip) = (tasksOf c evs).map forwarded := by
  rw [Demux.tasksOf, messagesOf_clip, List.filter_map, Demux.tasksOf]
  apply congrArg
  apply List.filter_congr
  intro data hmem
  exact decide_eq_decide.mpr (not_congr (h.iff hmem))

theorem mem_messagesOf {c : Cliid} {data : Bytes} : data ∈ messagesOf c evs ↔ .message c data ∈ evs := by
  rw [messagesOf, List.mem_filterMap]
  constructor
  · rintro ⟨e, he, heq⟩
    cases e with
    | connect dest => cases heq
    | message c' data' =>
        simp only at heq
        split_ifs at heq with hc
        cases heq
        rwa [hc] at he
  · intro h
    exact ⟨_, h, if_pos rfl⟩

theorem connect_mem_clip {c : Cliid} : .connect c ∈ evs.map clip ↔ .connect c ∈ evs := by
  rw [List.mem_map]
  constructor
  · rintro ⟨e, he, heq⟩
    cases e with
    | message c' data => cases heq
    | connect dest =>
        cases heq
        exact he
  · intro h
    exact ⟨_, h, rfl⟩

theorem KeepsAnswers.of_append {pre post : List DemuxEvent} (h : KeepsAnswers (pre ++ post)) :
    KeepsAnswers pre := by
  intro c data hmem
  apply h c data
  rw [mem_messagesOf] at hmem ⊢
  exact List.mem_append_left _ hmem

theorem KeepsAnswers.firstContact (h : KeepsAnswers evs) (c : Cliid) :
    FirstContact c (evs.map clip) ↔ FirstContact c evs := by
  constructor
  · rintro ⟨pre', data', post', heq, hd, ht, hc⟩
    obtain ⟨pre, rest, rfl, rfl, hrest⟩ := List.map_eq_append_iff.mp heq
    obtain ⟨e, post, rfl, he, rfl⟩ := List.map_eq_cons_iff.mp hrest
    cases e with
    | connect dest => cases he
    | message c' data =>
        cases he
        refine ⟨pre, data, post, rfl, ?_, ?_, fun hm => hc (connect_mem_clip.mpr hm)⟩
        · rintro rfl
          exact hd forwarded_commHandlerSubInit
        · rwa [h.of_append.tasksOf, List.map_eq_nil_iff] at ht
  · rintro ⟨pre, data, post, rfl, hd, ht, hc⟩
    refine ⟨pre.map clip, forwarded data, post.map clip, by simp [clip], ?_, ?_,
      fun hm => hc (connect_mem_clip.mp hm)⟩
    · intro hcut
      exact hd (h c data (mem_messagesOf.mpr (by simp)) hcut)
    · rw [h.of_append.tasksOf, ht, List.map_nil]

/-! ## The trace law -/

/-- Internal ids are pushed on `clientq` under names that tell them apart. -/
theorem count_clientq (hint : Internal evs) {q fc : List Cliid} (hq : q = fc.map idi2e)
    (hnd : fc.Nodup) (hmem : ∀ c, c ∈ fc ↔ FirstContact c evs) (x : Cliid) :
    (FirstContact (ide2i x) evs → q.count (idi2e (ide2i x)) = 1) ∧
    (¬ FirstContact (ide2i x) evs → q.count (idi2e (ide2i x)) = 0) := by
  have hshape : ∀ c ∈ fc, ∃ y, c = ide2i y := by
    intro c hc
    obtain ⟨pre, data, post, heq, -⟩ := (hmem c).mp hc
    obtain ⟨y, h | ⟨_, h⟩⟩ := hint (.message c data) (by simp [heq])
    · cases h
    · cases h
      exact ⟨y, rfl⟩
  have hnodup : (fc.map idi2e).Nodup := by
    refine hnd.map_on ?_
    intro a ha b hb hab
    obtain ⟨y, rfl⟩ := hshape a ha
    obtain ⟨z, rfl⟩ := hshape b hb
    exact ide2i_eq_of_idi2e_eq hab
  rw [hq]
  refine ⟨fun h => ?_, fun h => ?_⟩
  · exact List.count_eq_one_of_mem hnodup (List.mem_map_of_mem ((hmem _).mpr h))
  · rw [List.count_eq_zero]
    intro hm
    obtain ⟨c, hc, hcx⟩ := List.mem_map.mp hm
    obtain ⟨y, rfl⟩ := hshape c hc
    rw [ide2i_eq_of_idi2e_eq hcx] at hc
    exact h ((hmem _).mp hc)

theorem Uncut.traceLaw (h : Uncut evs) (c : Cliid) : TraceLaw evs c := by
  have hlaw := law_clip h.readable
  have hkeeps : KeepsAnswers evs := h.answers
  have hmap : (run evs).clientmap c ≠ some false := by
    rcases hlaw.known c with ⟨h, _⟩ | ⟨h, _⟩ <;> simp [h]
  have hcut : ∀ q : List Bytes, (∀ data ∈ q, data.length < 2 ^ 31) → q.map forwarded = q :=
    fun q hq => map_eq_self fun data hd => forwarded_of_lt (hq data hd)
  obtain ⟨fc, hq, hnd, hmem⟩ := hlaw.clientq
  have hmem' : ∀ c', c' ∈ fc ↔ FirstContact c' evs :=
    fun c' => (hmem c').trans (hkeeps.firstContact c')
  refine ⟨?_, ⟨fc, hq, hnd, hmem'⟩, ?_, ?_, ?_, hmap, ?_⟩
  · rw [hlaw.suberq c, hkeeps.subHellosOf c]
  · rintro hint x rfl
    exact count_clientq hint hq hnd hmem' x
  · intro hfirst
    rw [(hlaw.taskq c).1 ((hkeeps.firstContact c).mpr hfirst), hkeeps.tasksOf c, ← List.map_tail]
    exact hcut _ (h.first c hfirst)
  · intro hfirst
    rw [(hlaw.taskq c).2 fun hf => hfirst ((hkeeps.firstContact c).mp hf), hkeeps.tasksOf c]
    exact hcut _ (h.tasks c hfirst)
  · intro data
    unfold routerDest
    split_ifs
    · simp
    · split
      · simp
      · rename_i hfalse
        exact absurd hfalse hmap
      · simp

/-- Without a negative length the law shows every cut. -/
theorem uncut_of_readable (hread : Readable evs) (h : ∀ c, TraceLaw evs c) : Uncut evs := by
  have hlaw := law_clip hread
  have hkeeps : KeepsAnswers evs := by
    intro c
    apply answers_of_subHellosOf
    rw [← hlaw.suberq c, (h c).suberq]
  have hshort : ∀ q : List Bytes, q.map forwarded = q → ∀ data ∈ q, data.length < 2 ^ 31 := by
    intro q hq data hd
    rw [← forwarded_eq_self_iff]
    exact List.map_inj_left.mp (hq.trans (List.map_id q).symm) data hd
  refine ⟨hread, hkeeps, ?_, ?_⟩
  · intro c hfirst
    apply hshort
    rw [List.map_tail, ← hkeeps.tasksOf c, ← (hlaw.taskq c).1 ((hkeeps.firstContact c).mpr hfirst),
      (h c).first hfirst]
  · intro c hfirst
    apply hshort
    rw [← hkeeps.tasksOf c, ← (hlaw.taskq c).2 fun hf => hfirst ((hkeeps.firstContact c).mp hf),
      (h c).tasks hfirst]

/-- A last message with a negative length is missing somewhere. -/
theorem not_traceLaw_of_neg {c : Cliid} {data : Bytes} (hread : Readable evs)
    (hneg : recvLen data < 0) (h : ∀ c', TraceLaw (evs ++ [.message c data]) c') : False := by
  have hlaw := law_clip hread
  have hrun : run (evs ++ [.message c data]) = run evs := by
    rw [run_concat, handle, if_pos hneg]
  have hdata : data ≠ commHandlerSubInit := by
    rintro rfl
    exact absurd hneg (by decide)
  have hkeeps : KeepsAnswers evs := by
    intro c'
    apply answers_of_subHellosOf
    have hsub := (h c').suberq
    rw [hrun, subHellosOf_concat_message, if_neg (fun hc => hdata hc.2), List.append_nil] at hsub
    rw [← hlaw.suberq c', hsub]
  have htasks : tasksOf c (evs ++ [.message c data]) = tasksOf c evs ++ [data] := by
    rw [tasksOf_concat_message, if_pos ⟨rfl, hdata⟩]
  have hlen : (tasksOf c (evs.map clip)).length = (tasksOf c evs).length := by
    rw [hkeeps.tasksOf c, List.length_map]
  by_cases hold : FirstContact c evs
  · have hfirst := (h c).first ((firstContact_concat _ _ _).mpr (.inl hold))
    rw [hrun, htasks, (hlaw.taskq c).1 ((hkeeps.firstContact c).mpr hold)] at hfirst
    have hsize := congrArg List.length hfirst
    have hpos := List.length_pos_of_ne_nil hold.tasksOf_ne_nil
    rw [List.length_tail, List.length_tail, List.length_append, List.length_singleton, hlen] at hsize
    omega
  have hpipe := (hlaw.taskq c).2 fun hf => hold ((hkeeps.firstContact c).mp hf)
  by_cases hnew : FirstContact c (evs ++ [.message c data])
  · -- the peer is a first contact that `clientq` has not received
    obtain ⟨fc, hq, hnd, hmem⟩ := hlaw.clientq
    obtain ⟨fc', hq', hnd', hmem'⟩ := (h c).clientq
    have hc : c ∉ fc := fun hc => hold ((hkeeps.firstContact c).mp ((hmem c).mp hc))
    have hsubset : c :: fc ⊆ fc' := by
      intro x hx
      rcases List.mem_cons.mp hx with rfl | hx
      · exact (hmem' x).mpr hnew
      · apply (hmem' x).mpr
        exact (firstContact_concat _ _ _).mpr (.inl ((hkeeps.firstContact x).mp ((hmem x).mp hx)))
    have hle := ((List.nodup_cons.mpr ⟨hc, hnd⟩).subperm hsubset).length_le
    have hsize := congrArg List.length (hq.symm.trans (hrun ▸ hq'))
    rw [List.length_map, List.length_map] at hsize
    rw [List.length_cons] at hle
    omega
  · have hall := (h c).tasks hnew
    rw [hrun, htasks, hpipe] at hall
    have hsize := congrArg List.length hall
    rw [List.length_append, List.length_singleton, hlen] at hsize
    omega

/-- **The trace law of the router demultiplexer holds of exactly the sequences in which no cut
shows**: for every finite sequence of router messages and served connect requests that the comm
thread handled, of any lengths and from any peers. -/
theorem traceLaw_iff_uncut (evs : List DemuxEvent) (hall : Handled evs) :
    (∀ c, TraceLaw evs c) ↔ Uncut evs := by
  refine ⟨fun h => ?_, fun h c => h.traceLaw c⟩
  by_cases hread : Readable evs
  · exact uncut_of_readable hread h
  · exfalso
    unfold Readable at hread
    simp only [not_forall, not_not] at hread
    obtain ⟨c, data, hmem, hneg⟩ := hread
    obtain ⟨pre, post, rfl⟩ := List.append_of_mem hmem
    obtain rfl := hall pre c data post rfl hneg
    refine not_traceLaw_of_neg ?_ hneg h
    -- a second one would have ended the thread before
    intro c' data' hmem' hneg'
    obtain ⟨l, r, rfl⟩ := List.append_of_mem hmem'
    have hnil := hall l c' data' (r ++ [.message c data]) (by simp) hneg'
    simp at hnil

end

theorem handled_of_readable {evs : List DemuxEvent} (h : Readable evs) : Handled evs := by
  rintro pre c data post rfl hneg
  exact absurd hneg (h c data (by simp))

/-- Messages whose lengths fit in an `int` are not cut. -/
theorem uncut_of_short {evs : List DemuxEvent}
    (h : ∀ c data, .message c data ∈ evs → data.length < 2 ^ 31) : Uncut evs := by
  have hmem : ∀ c, ∀ data ∈ tasksOf c evs, data.length < 2 ^ 31 :=
    fun c data hd => h c data (mem_messagesOf.mp (List.mem_filter.mp hd).1)
  refine ⟨fun c data he => recvLen_nonneg_of_lt (h c data he), ?_,
    fun c _ data hd => hmem c data (List.mem_of_mem_tail hd), fun c _ => hmem c⟩
  intro c data hd hcut
  rwa [forwarded_of_lt (h c data (mem_messagesOf.mp hd))] at hcut

/-- Peer 17 says hello and then sends two tasks; node 33 is connected to first, so its message is a
task at once. -/
def twoPeers : List DemuxEvent :=
  [.connect 33, .message 17 [1], .message 33 [2], .message 17 [3], .message 17 commHandlerSubInit]

/-- The law holds of the events of two peers. -/
theorem traceLaw_twoPeers :
    Handled twoPeers ∧ (∀ c, TraceLaw twoPeers c) ∧ (run twoPeers).clientq = [1] ∧
      pipe 17 (run twoPeers).taskq = [[3]] ∧ pipe 33 (run twoPeers).taskq = [[2]] := by
  have hfit : ∀ c data, .message c data ∈ twoPeers → data.length < 2 ^ 31 := by
    intro c data hmem
    simp only [twoPeers, List.mem_cons, List.not_mem_nil, or_false, DemuxEvent.message.injEq,
      reduceCtorEq, false_or] at hmem
    rcases hmem with ⟨-, rfl⟩ | ⟨-, rfl⟩ | ⟨-, rfl⟩ | ⟨-, rfl⟩ <;> decide
  have hall : Handled twoPeers := handled_of_readable (uncut_of_short hfit).readable
  refine ⟨hall, (traceLaw_iff_uncut twoPeers hall).mpr (uncut_of_short hfit), ?_, ?_, ?_⟩ <;> decide

/-- A task of `2^32 + 5` bytes from a peer that was connected to: five bytes of it are on `taskq`. -/
theorem not_traceLaw_long :
    pipe 17 (run [.connect 17, .message 17 (List.replicate (2 ^ 32 + 5) 7)]).taskq =
        [List.replicate 5 7] ∧
      Handled [.connect 17, .message 17 (List.replicate (2 ^ 32 + 5) 7)] ∧
      ¬ TraceLaw [.connect 17, .message 17 (List.replicate (2 ^ 32 + 5) 7)] 17 := by
  obtain ⟨data, hdata⟩ : ∃ data : Bytes, data = List.replicate (2 ^ 32 + 5) 7 := ⟨_, rfl⟩
  rw [← hdata]
  have hlen : recvLen data = 5 := by
    rw [hdata, recvLen, List.length_replicate]
    decide
  have hpos : ¬ recvLen data < 0 := by
    rw [hlen]
    decide
  have hcut : forwarded data = List.replicate 5 7 := by
    rw [forwarded, hlen, hdata, List.take_replicate]
    rfl
  have hsub : ¬ IsSubInit data := by
    rw [isSubInit_iff, hcut]
    decide
  have hrun : run [.connect 17, .message 17 data] =
      ⟨Function.update empty.clientmap 17 (some true), [], [], [(17, List.replicate 5 7)]⟩ := by
    simp [run, handle, empty, hpos, routerDest, hsub, hcut]
  have htaskq : pipe 17 (run [.connect 17, .message 17 data]).taskq = [List.replicate 5 7] := by
    rw [hrun]
    rfl
  refine ⟨htaskq, ?_, ?_⟩
  · apply handled_of_readable
    intro c m hmem
    obtain ⟨rfl, rfl⟩ : c = 17 ∧ m = data := by simpa using hmem
    exact hpos
  · intro hlaw
    have hfirst : ¬ FirstContact 17 [.connect 17, .message 17 data] := by
      rw [show ([.connect 17, .message 17 data] : List DemuxEvent) = [.connect 17] ++
        [.message 17 data] from rfl, firstContact_concat]
      rintro (h | ⟨-, -, h⟩)
      · exact h.tasksOf_ne_nil rfl
      · exact h List.mem_cons_self
    have hne : data ≠ commHandlerSubInit := fun h => hsub (h ▸ by decide)
    have htasks : tasksOf 17 [.connect 17, .message 17 data] = [data] := by
      simp [tasksOf, messagesOf, hne]
    have hlaw := hlaw.tasks hfirst
    rw [htaskq, htasks, List.cons.injEq] at hlaw
    have hsize := congrArg List.length hlaw.1
    rw [hdata, List.length_replicate, List.length_replicate] at hsize
    omega

end Demux

namespace CommHandler

variable {τ : Type} [DecidableEq τ]

/-! ## The node runs the demultiplexer -/

/-- The item whose push on `taskq` is under way. -/
def heldTask (s : CommHandler τ) : List (Cliid × Msg τ) :=
  match s.pc with
  | .pushTask cid m _ => [(cid, m)]
  | _ => []

/-- The item whose push on `suberq` is under way. -/
def heldSuber (s : CommHandler τ) : List (Cliid × Msg τ) :=
  match s.pc with
  | .pushSuber cid m _ => [(cid, m)]
  | _ => []

/-- The demultiplexer of a node: what is being pushed counts as pushed. -/
def demux (s : CommHandler τ) : Demux where
  clientmap := s.clientmap
  clientq := s.clientLog
  suberq := (s.suberLog ++ s.heldSuber).map fun e => (e.1, e.2.data)
  taskq := (s.taskLog ++ s.heldTask).map fun e => (e.1, e.2.data)

/-- The event a step of the node hands to the demultiplexer. -/
def demuxEvents (s : CommHandler τ) : Label τ → List DemuxEvent
  | .comm (.router c) => ((pop c s.routerIn).map fun r => DemuxEvent.message c r.1.data).toList
  | .comm (.conn t _ true) => ((pop t s.connSock).map fun r => DemuxEvent.connect r.1.1).toList
  | _ => []

/-- The events of a run. -/
def demuxTrace (hwm : Nat) : CommHandler τ → List (Label τ) → List DemuxEvent
  | _, [] => []
  | s, l :: ls => s.demuxEvents l ++
      match s.step hwm l with
      | some s' => demuxTrace hwm s' ls
      | none => []

/-- Steps without multicast traffic and without a failing push. -/
def RouterOnly : CommHandler τ → Label τ → Prop
  | _, .comm (.push none) => False
  | _, .comm (.subSock _ _ _) => False
  | _, _ => True

theorem commStep_demux {hwm : Nat} {s s' : CommHandler τ} {l : CommLabel τ}
    (hok : s.RouterOnly (.comm l)) (h : s.commStep hwm l = some s') :
    s'.demux = (s.demuxEvents (.comm l)).foldl Demux.handle s.demux := by
  cases commTrans_of_commStep h with
  | routerSuber hpc hpop hd hlen =>
      simp [demux, demuxEvents, heldTask, heldSuber, hpc, hpop, Demux.handle, routerDest,
        isSubInit_iff, hd, hlen]
  | routerClient hpc hpop hd hmap hlen =>
      rename_i rest c m q
      simp only [demux, demuxEvents, hpop, heldTask, heldSuber, hpc, Option.map_some,
        Option.toList_some, List.foldl_cons, List.foldl_nil, Demux.handle, routerDest,
        isSubInit_iff, if_neg hd, if_neg hlen]
      cases hc : s.clientmap c with
      | none => rfl
      | some b =>
          cases b with
          | false => rfl
          | true => exact absurd hc hmap
  | routerTask hpc hpop hd hmap hlen =>
      simp [demux, demuxEvents, heldTask, heldSuber, hpc, hpop, Demux.handle, routerDest,
        isSubInit_iff, hd, hmap, hlen]
  | conn hpc hpop =>
      simp [demux, demuxEvents, heldTask, heldSuber, hpc, hpop, Demux.handle]
  | helloRetry hpc => rfl
  | subSockNew | subSockOld | subSockTask => exact hok.elim
  | pushTaskLost | pushSuberLost => exact hok.elim
  | pushTask hpc | pushSuber hpc =>
      simp [demux, demuxEvents, heldTask, heldSuber, hpc, unlock]
  | startupNext hpc | startupDone hpc | startupFail hpc | startupSilent hpc
  | poll hpc | pollFail hpc | recvFail hpc | recvFailConn hpc | msgqSent hpc | msgqLost hpc
  | monitorOk hpc | monitorFail hpc | monitorAbort hpc | connFail hpc | hello hpc | pubSend hpc
  | pubSendFail hpc | sub hpc | subConnFail hpc | subSetFail hpc | subSpin hpc | pubStart hpc
  | pubStartFail hpc | shutdown hpc =>
      simp [demux, demuxEvents, heldTask, heldSuber, hpc, unlock, failed]

/-- The application does not touch what the demultiplexer is made of. -/
theorem appStep_demux {s s' : CommHandler τ} {t : τ} {l : AppLabel} (h : s.appStep t l = some s') :
    s'.demux = s.demux := by
  have hf := appFrame_of_appStep h
  simp only [demux, heldTask, heldSuber, hf.pc, hf.clientmap, hf.clientLog, hf.suberLog, hf.taskLog]

/-- The messages that a step takes have no negative length. -/
theorem readable_of_step {hwm : Nat} {s s' : CommHandler τ} {l : Label τ}
    (h : s.step hwm l = some s') : Demux.Readable (s.demuxEvents l) := by
  intro c data hmem
  cases l with
  | comm l =>
      cases commTrans_of_commStep h with
      | routerSuber hpc hpop hd hlen | routerClient hpc hpop hd hmap hlen
      | routerTask hpc hpop hd hmap hlen =>
          simp only [demuxEvents, hpop, Option.map_some, Option.toList_some, List.mem_singleton,
            DemuxEvent.message.injEq] at hmem
          rwa [hmem.2]
      | conn hpc hpop => simp [demuxEvents, hpop] at hmem
      | _ => cases hmem
  | app t l => cases hmem
  | ctor l => cases hmem
  | env l => cases hmem

theorem step_demux {hwm : Nat} {s s' : CommHandler τ} {l : Label τ} (hok : s.RouterOnly l)
    (h : s.step hwm l = some s') : s'.demux = (s.demuxEvents l).foldl Demux.handle s.demux := by
  cases l with
  | comm l => exact commStep_demux hok h
  | app t l => exact appStep_demux (step_app_eq_some h).2
  | ctor l => rcases ctorStep_eq_some h with ⟨_, _, rfl⟩ | ⟨_, rfl⟩ <;> rfl
  | env l =>
      cases h
      cases l <;> rfl

theorem readable_of_exec {hwm : Nat} {ls : List (Label τ)} {s s' : CommHandler τ}
    (hrun : exec (step hwm) s ls = some s') : Demux.Readable (demuxTrace hwm s ls) := by
  induction ls generalizing s with
  | nil =>
      intro c data hmem
      cases hmem
  | cons l ls ih =>
      obtain ⟨m, hm, hrun⟩ := exec_cons_eq_some.mp hrun
      intro c data hmem
      simp only [demuxTrace, hm] at hmem
      rcases List.mem_append.mp hmem with hmem | hmem
      · exact readable_of_step hm c data hmem
      · exact ih hrun c data hmem

theorem demux_of_exec_from {hwm : Nat} {ls : List (Label τ)} {s s' : CommHandler τ}
    (hok : Meets (step hwm) RouterOnly s ls) (hrun : exec (step hwm) s ls = some s') :
    s'.demux = (demuxTrace hwm s ls).foldl Demux.handle s.demux := by
  induction ls generalizing s with
  | nil =>
      cases hrun
      rfl
  | cons l ls ih =>
      obtain ⟨m, hm, hrun⟩ := exec_cons_eq_some.mp hrun
      have hrest := ih (hok.tail hm) hrun
      rw [hrest, step_demux hok.head hm, ← List.foldl_append]
      simp only [demuxTrace, hm]

/-- **A run of a node refines the demultiplexer**: its maps and queues are those of `Demux.run` on
the router messages and connect requests it handled, and these are a sequence that the thread has
handled. -/
theorem demux_of_exec {hwm : Nat} {id : Cliid} {acceptConns : Bool} {ls : List (Label τ)}
    {s : CommHandler τ} (hok : Meets (step hwm) RouterOnly (init τ id acceptConns) ls)
    (hrun : exec (step hwm) (init τ id acceptConns) ls = some s) :
    s.demux = Demux.run (demuxTrace hwm (init τ id acceptConns) ls) ∧
      Demux.Handled (demuxTrace hwm (init τ id acceptConns) ls) :=
  ⟨demux_of_exec_from hok hrun, Demux.handled_of_readable (readable_of_exec hrun)⟩

end CommHandler

end CommTest.Zmq
