import CommTest.Zmq.Application

/-!
# The texts of the requests

`connect_to`, `init_pub` and `subscribe_to` hand a text to the comm thread, which reads it back as a
C string; the text of `subscribe_to` is then taken apart at its `&`.

* `subRead` is the `subpull` block with its two `int`s, the length of the received text and the
  position of the `&` (`subSplit`); `subRead_eq_of_lt` says that it is what the comm thread of
  `CommHandler` does with the texts whose positions fit.
* `subGids_gidsText`: the groups written into a text are read back, one round of the loop for each.
* `subRequest_roundTrip_iff`: when a subscription request is read back as it was made.
* `request_read_iff`: the texts carry no terminator, so what is read back depends on what follows
  them in memory.
-/

set_option linter.unusedSectionVars false

namespace CommTest.Zmq

open FairQueue CommHandler

/-! ## The decoder of a subscription text -/

/-- `int dlim = dstr.find('&')`; `npos` is -1 as an `int`. -/
def dlim (dstr : Bytes) : Int32 :=
  match dstr.findIdx? (· = 38) with
  | some k => Int32.ofNat k
  | none => -1

/-- `s.substr(pos, count)` for two `int`s, which are converted to `size_t`: a negative one is larger
than the size of any string. A position behind the end throws (`none`). -/
def substr (s : Bytes) (pos count : Int32) : Option Bytes :=
  if pos.toInt < 0 ∨ (s.length : Int) < pos.toInt then none
  else if count.toInt < 0 then some (s.drop pos.toInt.toNat)
  else some ((s.drop pos.toInt.toNat).take count.toInt.toNat)

/-- The addresses to connect to and the groups to subscribe to; the loop that reads the groups may
never end (`none` inside), and `substr` may throw. Source: `comm_handler.cpp`, `start_handler`,
`subpull` block, from `dstr` on. -/
def subSplit (junk : Cliid) (dstr : Bytes) : Option (List Bytes × Option (List Cliid)) := do
  let addr ← substr dstr 0 (dlim dstr)
  let gids ← substr dstr (dlim dstr + 1) (-1)
  return (if addr = [] then [] else [addr],
    subGids junk (gids.length + 1) { rest := gids, eof := false, fail := false })

/-- The whole block on a received text that is followed by `behind` in memory: the thread returns
when the length of the text is negative. Source: `comm_handler.cpp`, `start_handler`, `subpull` block.
-/
def subRead (junk : Cliid) (text behind : Bytes) : Option (List Bytes × Option (List Cliid)) :=
  if recvLen text < 0 then none else subSplit junk (cstr text behind)

theorem toInt_dlim_add_one {k : Nat} (hk : k + 1 < 2 ^ 31) :
    (Int32.ofNat k + 1).toInt = (k + 1 : Nat) := by
  have hadd : Int32.ofNat k + 1 = Int32.ofNat (k + 1) := (Int32.ofNat_add k 1).symm
  rw [hadd, Int32.toInt_ofNat_of_lt hk]

theorem findIdx_append {addr : Bytes} (haddr : 38 ∉ addr) (gids : Bytes) :
    (addr ++ 38 :: gids).findIdx? (· = 38) = some addr.length := by
  induction addr with
  | nil => rfl
  | cons b addr ih =>
      have hb : b ≠ 38 := fun h => haddr (h ▸ List.mem_cons_self)
      have htail := ih fun h => haddr (List.mem_cons_of_mem b h)
      rw [List.cons_append, List.findIdx?_cons, if_neg (by simpa using hb), htail]
      rfl

/-- An `&` at a position that fits in an `int`: the text is cut there. -/
theorem subSplit_append {addr gids : Bytes} (haddr : 38 ∉ addr) (hlen : addr.length + 1 < 2 ^ 31)
    (junk : Cliid) :
    subSplit junk (addr ++ 38 :: gids) = some (if addr = [] then [] else [addr],
      subGids junk (gids.length + 1) { rest := gids, eof := false, fail := false }) := by
  have hdlim : dlim (addr ++ 38 :: gids) = Int32.ofNat addr.length := by
    rw [dlim, findIdx_append haddr]
  have hcount : (Int32.ofNat addr.length).toInt = addr.length :=
    Int32.toInt_ofNat_of_lt (Nat.lt_of_succ_lt hlen)
  have hfirst : substr (addr ++ 38 :: gids) 0 (Int32.ofNat addr.length) = some addr := by
    unfold substr
    rw [hcount, if_neg (by simp; omega), if_neg (Int.not_lt.mpr (Int.natCast_nonneg _))]
    simp
  have hsecond : substr (addr ++ 38 :: gids) (Int32.ofNat addr.length + 1) (-1) = some gids := by
    unfold substr
    rw [toInt_dlim_add_one hlen, if_neg (by simp; omega), if_pos (by decide), Int.toNat_natCast,
      List.append_cons, List.drop_left' (by simp)]
  simp only [subSplit, hdlim, hfirst, hsecond, bind, Option.bind, pure]

/-- The comm thread's reading of a text whose positions fit in an `int`. -/
theorem subRead_eq_of_lt (junk : Cliid) {text behind : Bytes} (htext : ¬ recvLen text < 0)
    (hlen : (cstr text behind).length < 2 ^ 31) :
    subRead junk text behind =
      some (subRequestAddr text behind, subRequestGids junk text behind) := by
  unfold subRead subRequestAddr subRequestGids
  rw [if_neg htext]
  generalize cstr text behind = dstr at hlen
  by_cases hamp : 38 ∈ dstr
  · obtain ⟨addr, gids, rfl, haddr⟩ := List.eq_append_cons_of_mem hamp
    have hbefore : beforeAmp (addr ++ 38 :: gids) = addr := by
      have hall : ∀ b ∈ addr, decide (b ≠ 38) = true :=
        fun b hb => decide_eq_true fun h => haddr (h ▸ hb)
      unfold beforeAmp
      rw [List.takeWhile_append_of_pos hall]
      simp
    have hafter : afterAmp (addr ++ 38 :: gids) = gids := by
      unfold afterAmp
      simp only [findIdx_append haddr]
      rw [List.append_cons, List.drop_left' (by simp)]
    rw [List.length_append, List.length_cons] at hlen
    simp only [hbefore, hafter]
    exact subSplit_append haddr (by omega) junk
  · have hnone : dstr.findIdx? (· = 38) = none := by
      rw [List.findIdx?_eq_none_iff]
      intro b hb
      exact decide_eq_false fun h => hamp (h ▸ hb)
    have hbefore : beforeAmp dstr = dstr :=
      List.takeWhile_eq_self_iff.mpr fun b hb => decide_eq_true fun h => hamp (h ▸ hb)
    have hafter : afterAmp dstr = dstr := by
      unfold afterAmp
      simp only [hnone]
    have hwhole : substr dstr 0 (-1) = some dstr := by
      unfold substr
      rw [if_neg (by simp), if_pos (by decide)]
      rfl
    have hdlim : dlim dstr = -1 := by rw [dlim, hnone]
    simp only [subSplit, hdlim, hbefore, hafter, hwhole, show (-1 : Int32) + 1 = 0 from rfl, bind,
      Option.bind, pure]

/-! ## The groups are read back -/

theorem stops_gidsText (ids : List Cliid) : Stops (gidsText ids) := by
  cases ids with
  | nil => exact stops_nil
  | cons x ids =>
      intro b hb
      obtain rfl : 59 = b := Option.some.inj hb
      decide

theorem gidsText_cons (x : Cliid) (ids : List Cliid) :
    gidsText (x :: ids) = 59 :: (decimal x ++ gidsText ids) := rfl

/-- **The groups written into a text are read back**, with one round of the loop for each. -/
theorem subGids_gidsText (junk x : Cliid) (ids : List Cliid) {rounds : Nat}
    (hrounds : ids.length < rounds) :
    subGids junk rounds { rest := gidsText (x :: ids), eof := false, fail := false } =
      some (x :: ids) := by
  induction ids generalizing x rounds with
  | nil =>
      obtain ⟨n, rfl⟩ := Nat.exists_eq_add_of_lt hrounds
      have hchar : IStream.getChar { rest := gidsText [x], eof := false, fail := false } =
          { rest := decimal x ++ [], eof := false, fail := false } := rfl
      simp only [subGids, hchar, getInt_decimal junk x stops_nil, decide_true, if_true]
  | cons y ids ih =>
      obtain ⟨n, rfl⟩ : ∃ n, rounds = n + 1 := ⟨rounds - 1, by omega⟩
      have hchar : IStream.getChar { rest := gidsText (x :: y :: ids), eof := false, fail := false } =
          { rest := decimal x ++ gidsText (y :: ids), eof := false, fail := false } := rfl
      have hne : gidsText (y :: ids) ≠ [] := by
        rw [gidsText_cons]
        exact List.cons_ne_nil _ _
      simp only [subGids, hchar, getInt_decimal junk x (stops_gidsText (y :: ids)), hne, decide_false,
        Bool.false_eq_true, if_false]
      rw [List.length_cons] at hrounds
      rw [ih y (by omega)]
      rfl

theorem length_le_gidsText (ids : List Cliid) : ids.length ≤ (gidsText ids).length := by
  induction ids with
  | nil => exact le_rfl
  | cons x ids ih =>
      rw [gidsText_cons, List.length_cons, List.length_cons, List.length_append]
      omega

/-- What the loop reads of the groups of a text: without a group it still goes round once. -/
theorem subGids_eq (junk : Cliid) (ids : List Cliid) :
    subGids junk ((gidsText ids).length + 1) { rest := gidsText ids, eof := false, fail := false } =
      some (if ids = [] then [junk] else ids) := by
  cases ids with
  | nil => rfl
  | cons x ids =>
      have hlen := length_le_gidsText (x :: ids)
      rw [List.length_cons] at hlen
      rw [subGids_gidsText junk x ids (by omega), if_neg (List.cons_ne_nil x ids)]

/-! ## The round trip of a subscription request -/

/-- An `&` at a position that does not fit in an `int`: the text is not cut there, or the position
behind it is negative. -/
theorem subSplit_ne_of_le {addr gids : Bytes} (haddr : 38 ∉ addr) (hlen : 2 ^ 31 ≤ addr.length + 1)
    (junk : Cliid) (r : Option (List Cliid)) :
    subSplit junk (addr ++ 38 :: gids) ≠ some ([addr], r) := by
  intro h
  have hdlim : dlim (addr ++ 38 :: gids) = Int32.ofNat addr.length := by
    rw [dlim, findIdx_append haddr]
  have hlt := (Int32.ofNat addr.length).toInt_lt
  simp only [subSplit, hdlim, bind, Option.bind_eq_some_iff, pure, Option.some.injEq,
    Prod.mk.injEq] at h
  obtain ⟨a, ha, g, hg, heq, -⟩ := h
  obtain rfl : a = addr := by
    split_ifs at heq
    exact List.head_eq_of_cons_eq heq
  unfold substr at ha hg
  rw [if_neg (by simp; omega)] at ha
  split_ifs at ha with hneg
  · have hsize := congrArg List.length (Option.some.inj ha)
    simp at hsize
  · have hsize := congrArg List.length (Option.some.inj ha)
    rw [List.length_take, List.length_drop, List.length_append, List.length_cons] at hsize
    obtain hmax : a.length = 2147483647 := by omega
    rw [hmax, if_pos (.inl (by decide))] at hg
    cases hg

/-- The address part of a subscription text. -/
def subAddr (ip port : Bytes) : Bytes := if ip ≠ [] ∧ port ≠ [] then connstr ip port else []

theorem subText_eq (ip port : Bytes) (pubids : List Cliid) :
    subText ip port pubids = subAddr ip port ++
      38 :: gidsText (pubids.take (Int32.ofNat pubids.length).toNatClampNeg) := by
  rw [subText, List.append_assoc]
  rfl

section

variable {ip port : Bytes} {b : UInt8}

theorem mem_connstr (h : b ∈ connstr ip port) :
    b ∈ ip ∨ b ∈ port ∨ b ∈ ascii "tcp://" ∨ b ∈ ascii ":" := by
  unfold connstr at h
  simp only [List.mem_append] at h
  tauto

theorem mem_subAddr (h : b ∈ subAddr ip port) :
    b ∈ ip ∨ b ∈ port ∨ b ∈ ascii "tcp://" ∨ b ∈ ascii ":" := by
  unfold subAddr at h
  split_ifs at h
  · exact mem_connstr h
  · cases h

theorem mem_gidsText {ids : List Cliid} (h : b ∈ gidsText ids) :
    b = 59 ∨ b = 45 ∨ 48 ≤ b ∧ b ≤ 57 := by
  obtain ⟨x, -, hb⟩ := List.mem_flatMap.mp h
  rcases List.mem_append.mp hb with hb | hb
  · exact .inl (List.mem_singleton.mp hb)
  · exact .inr (mem_decimal hb)

theorem amp_not_mem_subAddr (hip : 38 ∉ ip) (hport : 38 ∉ port) : 38 ∉ subAddr ip port := by
  intro h
  rcases mem_subAddr h with h | h | h | h
  · exact hip h
  · exact hport h
  · exact absurd h (by decide)
  · exact absurd h (by decide)

theorem zero_not_mem_subText (hip : 0 ∉ ip) (hport : 0 ∉ port) (pubids : List Cliid) :
    0 ∉ subText ip port pubids := by
  rw [subText_eq]
  intro h
  rcases List.mem_append.mp h with h | h
  · rcases mem_subAddr h with h | h | h | h
    · exact hip h
    · exact hport h
    · exact absurd h (by decide)
    · exact absurd h (by decide)
  rcases List.mem_cons.mp h with h | h
  · exact absurd h (by decide)
  · rcases mem_gidsText h with h | h | h
    · exact absurd h (by decide)
    · exact absurd h (by decide)
    · exact absurd h.1 (by decide)

end

/-- A text without a terminator that happens to be followed by one. -/
theorem cstr_terminated {text : Bytes} (h : 0 ∉ text) (behind : Bytes) :
    cstr text (0 :: behind) = text := by
  have hall : ∀ b ∈ text, decide (b ≠ 0) = true := fun b hb => decide_eq_true fun h0 => h (h0 ▸ hb)
  rw [cstr, List.takeWhile_append_of_pos hall]
  simp

theorem toNatClampNeg_ofNat {n : Nat} (h : n < 2 ^ 31) : (Int32.ofNat n).toNatClampNeg = n := by
  show (Int32.ofNat n).toInt.toNat = n
  rw [Int32.toInt_ofNat_of_lt h, Int.toNat_natCast]

theorem toNatClampNeg_lt (x : Int32) : x.toNatClampNeg < 2 ^ 31 := by
  have hlt := x.toInt_lt
  show x.toInt.toNat < 2 ^ 31
  omega

/-- **When a subscription request is read back as it was made**: for every address without `&` and
terminator and every list of groups that is not empty, the comm thread connects to the address (if
there is one) and subscribes to the groups, all of them in order and one round of its loop for each,
if and only if the length of the text is not negative as an `int` and the number of groups and the
length of the address fit in one. -/
theorem subRequest_roundTrip_iff (ip port : Bytes) (pubids : List Cliid) (hip : 38 ∉ ip ∧ 0 ∉ ip)
    (hport : 38 ∉ port ∧ 0 ∉ port) (hids : pubids ≠ []) (junk : Cliid) (behind : Bytes) :
    subRead junk (subText ip port pubids) (0 :: behind) =
        some (if ip ≠ [] ∧ port ≠ [] then [connstr ip port] else [], some pubids) ↔
      0 ≤ recvLen (subText ip port pubids) ∧ pubids.length < 2 ^ 31 ∧
        (ip ≠ [] ∧ port ≠ [] → ip.length + port.length + 8 < 2 ^ 31) := by
  unfold subRead
  by_cases htext : recvLen (subText ip port pubids) < 0
  · rw [if_pos htext]
    exact iff_of_false (by simp) fun h => absurd h.1 (Int32.not_le.mpr htext)
  rw [if_neg htext]
  refine Iff.trans ?_ (and_iff_right (Int32.not_lt.mp htext)).symm
  have hexpected : (if ip ≠ [] ∧ port ≠ [] then [connstr ip port] else []) =
      if subAddr ip port = [] then [] else [subAddr ip port] := by
    unfold subAddr
    by_cases hboth : ip ≠ [] ∧ port ≠ []
    · have hne : connstr ip port ≠ [] := List.cons_ne_nil _ _
      rw [if_pos hboth, if_pos hboth, if_neg hne]
    · rw [if_neg hboth, if_neg hboth, if_pos rfl]
  have hlen : (ip ≠ [] ∧ port ≠ [] → ip.length + port.length + 8 < 2 ^ 31) ↔
      (subAddr ip port).length + 1 < 2 ^ 31 := by
    have hconn : (connstr ip port).length = ip.length + port.length + 7 := by
      simp only [connstr, List.length_append, show (ascii "tcp://").length = 6 from rfl,
        show (ascii ":").length = 1 from rfl]
      omega
    unfold subAddr
    split_ifs with hboth
    · rw [hconn]
      exact ⟨fun h => h hboth, fun h _ => h⟩
    · exact ⟨fun _ => by decide, fun _ h => absurd h hboth⟩
  rw [cstr_terminated (zero_not_mem_subText hip.2 hport.2 pubids), subText_eq, hexpected, hlen]
  by_cases hfits : (subAddr ip port).length + 1 < 2 ^ 31
  · rw [subSplit_append (amp_not_mem_subAddr hip.1 hport.1) hfits, subGids_eq]
    simp only [Option.some.injEq, Prod.mk.injEq, true_and, hfits, and_true]
    constructor
    · -- a loop that stops early writes fewer groups
      intro hread
      by_contra hmany
      have hcount := toNatClampNeg_lt (Int32.ofNat pubids.length)
      have hsize := congrArg List.length hread
      split_ifs at hsize
      · rw [List.length_singleton] at hsize
        omega
      · rw [List.length_take] at hsize
        omega
    · intro hmany
      rw [toNatClampNeg_ofNat hmany, List.take_length, if_neg hids]
  · have hne : subAddr ip port ≠ [] := by
      intro hnil
      rw [hnil] at hfits
      exact hfits (by decide)
    rw [if_neg hne]
    refine ⟨fun h => ?_, fun h => absurd h.2 hfits⟩
    exact absurd h
      (subSplit_ne_of_le (amp_not_mem_subAddr hip.1 hport.1) (Nat.not_lt.mp hfits) junk _)

/-- Two groups and an address. -/
theorem subRequest_roundTrip_two :
    (38 ∉ ascii "10.0.0.1" ∧ 0 ∉ ascii "10.0.0.1") ∧ (38 ∉ ascii "90" ∧ 0 ∉ ascii "90") ∧
    (subRead 7 (subText (ascii "10.0.0.1") (ascii "90") [3, -4]) [0] =
        some (if ascii "10.0.0.1" ≠ [] ∧ ascii "90" ≠ [] then
          [connstr (ascii "10.0.0.1") (ascii "90")] else [], some [3, -4]) ↔
      0 ≤ recvLen (subText (ascii "10.0.0.1") (ascii "90") [3, -4]) ∧
      [(3 : Cliid), -4].length < 2 ^ 31 ∧ (ascii "10.0.0.1" ≠ [] ∧ ascii "90" ≠ [] →
        (ascii "10.0.0.1").length + (ascii "90").length + 8 < 2 ^ 31)) :=
  ⟨by decide, by decide, subRequest_roundTrip_iff _ _ [3, -4] (by decide) (by decide) (by decide) 7 []⟩

/-- `2^31` groups: none of them is in the text, and the loop subscribes once to what its variable
holds. -/
theorem subRequest_many :
    subRead 7 (subText [] [] (List.replicate (2 ^ 31) 3)) [0] = some ([], some [7]) ∧
      some [7] ≠ some (List.replicate (2 ^ 31) (3 : Cliid)) := by
  constructor
  · have hcount : (Int32.ofNat (2 ^ 31)).toNatClampNeg = 0 := by decide
    rw [subText_eq, List.length_replicate, hcount, List.take_zero]
    decide
  · intro h
    have hlen := congrArg List.length (Option.some.inj h)
    rw [List.length_replicate, List.length_singleton] at hlen
    exact absurd hlen (by decide)

/-! ## What the comm thread reads of a request -/

section

variable {τ : Type} [DecidableEq τ]

/-- The bytes of a request, which are sent without a terminator. -/
def Request.text : Request → Bytes
  | .connect _ text => text
  | .pubStart text _ _ => text
  | .subscribe text => text

/-- The request that a call makes, if it makes one. -/
def AppLabel.request : AppLabel → Option Request
  | .connectTo destip destport destid => some (.connect (ide2i destid) (connstr destip destport))
  | .initPub ip port gid numSubs =>
      if ip ≠ [] ∧ port ≠ [] then some (.pubStart (connstr ip port) gid numSubs) else none
  | .subscribeTo pubip pubport pubids => some (.subscribe (subText pubip pubport pubids))
  | _ => none

/-- The request is the next one of thread `t` on its socket. -/
def CommHandler.Next (s : CommHandler τ) (t : τ) : Request → Prop
  | .connect dest text => ∃ q, pop t s.connSock = some ((dest, text), q)
  | .pubStart text _ _ => ∃ q, pop t s.pubstartPull = some (text, q)
  | .subscribe text => ∃ q, pop t s.subpull = some (text, q)

/-- The block of the comm thread that serves a request, when the socket calls succeed. -/
def CommHandler.serve (s : CommHandler τ) (t : τ) (behind : Bytes) (junk : Cliid)
    (rest : List Block) : Request → Option (CommHandler τ)
  | .connect _ _ => s.connBlock t behind true rest
  | .pubStart _ _ _ => s.pubStartBlock t behind true rest
  | .subscribe _ => s.subBlock t behind junk none rest

/-- Between `s` and `s'` the comm thread has read `str` for a request: the address it connects or
binds to, or the text it takes apart. -/
def Request.ReadAs (s s' : CommHandler τ) (junk : Cliid) (str : Bytes) : Request → Prop
  | .connect dest _ => s'.routerConns = s.routerConns ++ [(dest, str)]
  | .pubStart _ _ _ => s'.pubBinds = s.pubBinds ++ [str]
  | .subscribe _ =>
      s'.subConns = s.subConns ++ (if beforeAmp str = [] then [] else [beforeAmp str]) ∧
      match subGids junk ((afterAmp str).length + 1)
        { rest := afterAmp str, eof := false, fail := false } with
      | some ids => s'.subGroups = s.subGroups ++ ids
      | none => s'.pc = .spinning

theorem appStep_request {s : CommHandler τ} {t : τ} {l : AppLabel} {r : Request}
    (hr : l.request = some r) (hidle : s.app t = .idle) (herr : s.errcode = 0) :
    s.appStep t l = some (s.goto t (.calling r)) := by
  unfold AppLabel.request at hr
  split at hr
  · cases hr
    simp [appStep, hidle, herr]
  · split_ifs at hr with hboth
    cases hr
    simp only [appStep, hidle, if_pos hboth]
  · cases hr
    simp [appStep, hidle, herr]
  · cases hr

/-- **The comm thread reads a request as the C string at its bytes.** -/
theorem serve_reads {s : CommHandler τ} {t : τ} {r : Request} (hnext : s.Next t r)
    (hlen : ¬ recvLen r.text < 0) (behind : Bytes) (junk : Cliid) (rest : List Block) :
    ∃ s', s.serve t behind junk rest r = some s' ∧ r.ReadAs s s' junk (cstr r.text behind) := by
  cases r with
  | connect dest text =>
      obtain ⟨q, hpop⟩ := hnext
      have htext : ¬ recvLen text < 0 := hlen
      simp only [serve, connBlock, hpop, htext, if_true, if_false]
      exact ⟨_, rfl, rfl⟩
  | pubStart text gid numSubs =>
      obtain ⟨q, hpop⟩ := hnext
      have htext : ¬ recvLen text < 0 := hlen
      simp only [serve, pubStartBlock, hpop, htext, if_true, if_false]
      exact ⟨_, rfl, rfl⟩
  | subscribe text =>
      obtain ⟨q, hpop⟩ := hnext
      have htext : ¬ recvLen text < 0 := hlen
      simp only [serve, subBlock, hpop, htext, reduceCtorEq, and_false, if_false]
      cases hgids : subRequestGids junk text behind with
      | none =>
          refine ⟨_, rfl, rfl, ?_⟩
          unfold subRequestGids at hgids
          simp only [Request.text, hgids]
      | some ids =>
          refine ⟨_, rfl, rfl, ?_⟩
          unfold subRequestGids at hgids
          simp only [Request.text, hgids]

/-- A request whose length is negative is not read: the block cannot go on. -/
theorem serve_eq_none {s : CommHandler τ} {t : τ} {r : Request} (hnext : s.Next t r)
    (hlen : recvLen r.text < 0) (behind : Bytes) (junk : Cliid) (rest : List Block) :
    s.serve t behind junk rest r = none := by
  cases r with
  | connect dest text =>
      obtain ⟨q, hpop⟩ := hnext
      simp only [serve, connBlock, hpop, if_pos (show recvLen text < 0 from hlen)]
  | pubStart text gid numSubs =>
      obtain ⟨q, hpop⟩ := hnext
      simp only [serve, pubStartBlock, hpop, if_pos (show recvLen text < 0 from hlen)]
  | subscribe text =>
      obtain ⟨q, hpop⟩ := hnext
      simp only [serve, subBlock, hpop, if_pos (show recvLen text < 0 from hlen)]

theorem zero_not_mem_cstr (text behind : Bytes) : 0 ∉ cstr text behind := by
  intro h
  have hb := List.mem_takeWhile_imp h
  simp at hb

/-- A string in memory is the same whatever follows it exactly when it has its terminator. -/
theorem cstr_const_iff (text : Bytes) :
    (∀ b b', cstr text b = cstr text b') ↔ 0 ∈ text := by
  constructor
  · intro h
    by_contra hno
    have hempty : cstr text [] = text := by
      rw [h [] [0]]
      exact cstr_terminated hno []
    have hone : cstr text [1, 0] = text ++ [1] := by
      have hall : ∀ b ∈ text, decide (b ≠ 0) = true :=
        fun b hb => decide_eq_true fun h0 => hno (h0 ▸ hb)
      rw [cstr, List.takeWhile_append_of_pos hall]
      rfl
    have hlen := congrArg List.length (hempty.symm.trans ((h [] [1, 0]).trans hone))
    rw [List.length_append, List.length_singleton] at hlen
    omega
  · intro hzero b b'
    obtain ⟨pre, post, rfl, hpre⟩ := List.eq_append_cons_of_mem hzero
    have hcut : ∀ behind, cstr (pre ++ 0 :: post) behind = pre := by
      intro behind
      have heq : cstr (pre ++ 0 :: post) behind = cstr pre (0 :: (post ++ behind)) := by
        unfold cstr
        rw [List.append_assoc, List.cons_append]
      rw [heq, cstr_terminated hpre]
    rw [hcut, hcut]

/-- **No request is read from its own bytes only**: whatever the arguments of the call are, the C
string that the comm thread reads does not both end inside the received bytes and equal the text
that was built. It is independent of the memory behind the buffer exactly when an argument brings a
terminator into the text, and then it is cut there. A text whose length is negative as an `int` is
not read at all. -/
theorem request_read_iff (l : AppLabel) (r : Request) (hr : l.request = some r) :
    (∀ (s : CommHandler τ) (t : τ), s.app t = .idle → s.errcode = 0 →
      s.appStep t l = some (s.goto t (.calling r))) ∧
    (∀ (s : CommHandler τ) (t : τ) (behind : Bytes) (junk : Cliid) (rest : List Block), s.Next t r →
      if recvLen r.text < 0 then s.serve t behind junk rest r = none
      else ∃ s', s.serve t behind junk rest r = some s' ∧
        r.ReadAs s s' junk (cstr r.text behind)) ∧
    ¬ (0 ∈ r.text ∧ ∀ behind, cstr r.text behind = r.text) ∧
    ((∀ b b', cstr r.text b = cstr r.text b') ↔ 0 ∈ r.text) := by
  refine ⟨fun s t hidle herr => appStep_request hr hidle herr, ?_, ?_, cstr_const_iff r.text⟩
  · intro s t behind junk rest hnext
    split_ifs with hlen
    · exact serve_eq_none hnext hlen behind junk rest
    · exact serve_reads hnext hlen behind junk rest
  · rintro ⟨hzero, hown⟩
    rw [← hown []] at hzero
    exact zero_not_mem_cstr r.text [] hzero

end

/-- The request of `connect_to("1", "2")`. -/
theorem request_read_connect :
    (AppLabel.connectTo (ascii "1") (ascii "2") 3).request =
      some (.connect (ide2i 3) (connstr (ascii "1") (ascii "2"))) ∧
    ¬ (0 ∈ connstr (ascii "1") (ascii "2") ∧ ∀ behind,
      cstr (connstr (ascii "1") (ascii "2")) behind = connstr (ascii "1") (ascii "2")) :=
  ⟨rfl, (request_read_iff (τ := Unit) (.connectTo (ascii "1") (ascii "2") 3) _ rfl).2.2.1⟩

/-- With a `3` in the memory behind it, the address of port 2 is read as that of port 23. -/
theorem request_read_port :
    cstr (connstr (ascii "1") (ascii "2")) [51, 0] = connstr (ascii "1") (ascii "23") ∧
      connstr (ascii "1") (ascii "23") ≠ connstr (ascii "1") (ascii "2") ∧
      0 ∉ connstr (ascii "1") (ascii "2") := by
  decide

end CommTest.Zmq
