import CommTest.Socket.ReadEnd

/-!
# Failing reads

A failing `read` gives -1, which is the largest `size_t`: the loop of `readn` takes one off its
count for it, and a count of 0 becomes that largest number and ends the loop. The error of a first
`read` gets as far as the result of `readn`, but `tcp_read` tests it in an unsigned variable.

* `ReadEnding` and `readn_ending`: the ways in which a `readn` can return.
* `Classified` is what the result of a `tcp_read` should tell, `Sound` is when it does, and
  `tcpRead_classified_iff` that this is exact.
-/

set_option linter.unusedSectionVars false

namespace CommTest.Socket

open Mem

/-! ## How a readn ends -/

/-- The ways in which a `readn` of `len` bytes can return: the first read fails, or gives 0, or the
loop is entered with something to come. -/
inductive ReadEnding (len : Nat) (c : Conn) : List ReadOutcome → ReadRes → Prop
  | failed {buff : Memory} {script : List ReadOutcome} :
      ReadEnding len c (.err :: script) ⟨-1, buff, c, script⟩
  | nothing {buff : Memory} {k : Nat} {script : List ReadOutcome}
      (h : len = 0 ∨ (c.incoming = [] ∧ c.closed = true)) :
      ReadEnding len c (.got k :: script) ⟨0, buff, c, script⟩
  | counted {k : Nat} {script used : List ReadOutcome} {d : Nat} {b : ReadRes} (h0 : 0 < len)
      (hne : c.incoming ≠ []) (htally : Tally len 0 c (.got k :: script) b used d) :
      ReadEnding len c (.got k :: script) b

theorem readn_ending {len : Nat} (hlen : len < 2 ^ 64) {buff : Memory} {c : Conn}
    {script : List ReadOutcome} {b : ReadRes} (h : readn len buff c script = some b) :
    ReadEnding len c script b := by
  cases script with
  | nil => cases h
  | cons o script =>
      cases o with
      | err =>
          have hread : read len c .err = some (2 ^ 64 - 1, [], c) := rfl
          simp only [readn, hread, if_neg (show ¬ 2 ^ 64 - 1 = 0 by decide)] at h
          rw [readLoop_done (by omega), poke_nil] at h
          cases h
          exact .failed
      | got k =>
          by_cases hzero : len = 0 ∨ (c.incoming = [] ∧ c.closed = true)
          · rw [readn_nothing len hzero] at h
            cases h
            exact .nothing hzero
          · rw [not_or] at hzero
            have h0 := Nat.pos_of_ne_zero hzero.1
            by_cases hnil : c.incoming = []
            · -- the connection is open: the call waits
              have hopen : c.closed ≠ true := fun hclosed => hzero.2 ⟨hnil, hclosed⟩
              simp only [readn, read, if_neg hzero.1, if_pos hnil, if_neg hopen, reduceCtorEq] at h
            · rw [readn_eq_readLoop h0 hnil] at h
              obtain ⟨used, d, htally⟩ := readLoop_balance hlen (Nat.zero_le len) h
              exact .counted h0 hnil htally

/-- Bytes that come without a failing read are read. -/
theorem readn_afterBytes {len : Nat} (h0 : 0 < len) (hlen : len < 2 ^ 64) {c : Conn}
    (hav : len ≤ c.incoming.length) {script rest : List ReadOutcome}
    (hafter : afterBytes len script = some rest) (buff : Memory) :
    readn len buff c script = some ⟨Int32.ofNat len, poke buff 0 (c.incoming.take len),
      { c with incoming := c.incoming.drop len }, rest⟩ := by
  have hne : c.incoming ≠ [] := List.ne_nil_of_length_pos (by omega)
  cases script with
  | nil =>
      simp only [afterBytes, if_neg (Nat.pos_iff_ne_zero.mp h0), reduceCtorEq] at hafter
  | cons o script =>
      cases o with
      | err => simp only [afterBytes, if_neg (Nat.pos_iff_ne_zero.mp h0), reduceCtorEq] at hafter
      | got k =>
          rw [readn_eq_readLoop h0 hne]
          exact readLoop_afterBytes hlen buff (Nat.zero_le len) hav hafter

/-! ## What the result of a tcp_read tells -/

/-- The outcomes that a call has used up. -/
def usedUp (script rest : List ReadOutcome) : List ReadOutcome :=
  script.take (script.length - rest.length)

theorem usedUp_append (used rest : List ReadOutcome) : usedUp (used ++ rest) rest = used := by
  unfold usedUp
  rw [List.length_append, Nat.add_sub_cancel]
  exact List.take_left

/-- End-of-file comes before the first byte of the header. -/
def EofFirst (c : Conn) (script : List ReadOutcome) : Prop :=
  c.incoming = [] ∧ c.closed = true ∧ ∃ k rest, script = .got k :: rest

/-- The result of a `tcp_read` tells what happened: 0 says end-of-file before the header, a failing
read makes it negative, a length is only used when the read of the header brought exactly its four
bytes, and an empty message is not taken for the end of the connection. -/
structure Classified (junk : Memory) (c : Conn) (script : List ReadOutcome) (r : TcpReadRes) :
    Prop where
  zero : r.ret = 0 ↔ EofFirst c script
  error : .err ∈ usedUp script r.script → r.ret < 0
  header : ∀ h, readn 4 junk c script = some h → h.ret ≠ 0 →
    h.ret = 4 ∧ c.incoming.length = h.conn.incoming.length + 4
  empty : 4 ≤ c.incoming.length → announced c.incoming = 0 → r.ret ≠ 0

/-- When the reads of a message of `len` bytes, behind its header, leave a result that is right: the
first of them fails; or the message is not empty, some of it is there, and it comes without a
failing read, or the failing reads get ahead of its bytes, or its length is negative as an `int`. -/
def BodySound (len avail : Nat) (body : List ReadOutcome) : Prop :=
  (∃ rest, body = .err :: rest) ∨
    (0 < len ∧ 0 < avail ∧
      ((∃ rest, afterBytes len body = some rest) ∨ Outnumbered len 0 avail body ∨ 2 ^ 31 ≤ len))

/-- When the result of a `tcp_read` is right: end-of-file comes before the header, or the header
comes without a failing read and the reads of the message are sound. -/
def Sound (c : Conn) (script : List ReadOutcome) : Prop :=
  EofFirst c script ∨ ∃ body, 4 ≤ c.incoming.length ∧ afterBytes 4 script = some body ∧
    BodySound (announced c.incoming).toNat (c.incoming.length - 4) body

theorem ofNat_neg_iff {n : Nat} (h : n < 2 ^ 32) : Int32.ofNat n < 0 ↔ 2 ^ 31 ≤ n := by
  rw [Int32.lt_iff_toInt_lt]
  show (Int32.ofNat n).toInt < 0 ↔ _
  rw [Int32.toInt_ofNat', Int.bmod_def]
  show (if (n : Int) % 4294967296 < (4294967296 + 1) / 2 then (n : Int) % 4294967296
    else (n : Int) % 4294967296 - 4294967296) < 0 ↔ _
  split_ifs <;> omega

theorem ofNat_ne_zero {n : Nat} (h0 : 0 < n) (h : n < 2 ^ 32) : Int32.ofNat n ≠ 0 := by
  intro hzero
  have hint := congrArg Int32.toBitVec hzero
  have hnat := congrArg BitVec.toNat hint
  change (BitVec.ofNat 32 n).toNat = 0 at hnat
  rw [BitVec.toNat_ofNat, Nat.mod_eq_of_lt h] at hnat
  omega

theorem toUInt32_eq_zero_iff (x : Int32) : x.toUInt32 = 0 ↔ x = 0 := by
  constructor
  · intro h
    have hx := congrArg UInt32.toInt32 h
    exact hx
  · rintro rfl
    rfl

/-- The two reads of a `tcp_read` that returns. -/
theorem tcpRead_cases {maxsize : UInt32} {bufs : Bufs} {junk fresh : Memory} {c : Conn}
    {script : List ReadOutcome} {r : TcpReadRes}
    (hr : tcpRead maxsize bufs junk fresh c script = some r) :
    ∃ h, readn 4 junk c script = some h ∧
      ((h.ret = 0 ∧ r = ⟨0, bufs, h.conn, h.script⟩) ∨
        (h.ret ≠ 0 ∧ ∃ buff b, readn (decode32 (peek h.mem 4)).toNat buff h.conn h.script = some b ∧
          r.ret = b.ret ∧ r.script = b.script)) := by
  cases hh : readn 4 junk c script with
  | none => simp only [tcpRead, hh, reduceCtorEq] at hr
  | some h =>
      refine ⟨h, rfl, ?_⟩
      by_cases hzero : h.ret = 0
      · simp only [tcpRead, hh, if_pos ((toUInt32_eq_zero_iff _).mpr hzero)] at hr
        cases hr
        exact .inl ⟨hzero, rfl⟩
      · refine .inr ⟨hzero, ?_⟩
        rw [tcpRead_of_header maxsize bufs fresh hh (mt (toUInt32_eq_zero_iff _).mp hzero)] at hr
        obtain ⟨b, hb, rfl⟩ := Option.map_eq_some_iff.mp hr
        exact ⟨_, b, hb, rfl, rfl⟩

section

variable {junk : Memory} {c : Conn} {script rest : List ReadOutcome} {r : TcpReadRes}

theorem not_eofFirst (hne : c.incoming ≠ []) : ¬ EofFirst c script := fun h => hne h.1

theorem sound_iff {body : List ReadOutcome} (h4 : 4 ≤ c.incoming.length)
    (hafter : afterBytes 4 script = some body) :
    Sound c script ↔ BodySound (announced c.incoming).toNat (c.incoming.length - 4) body := by
  unfold Sound
  constructor
  · rintro (heof | ⟨body', -, hafter', hbody⟩)
    · exact absurd heof (not_eofFirst (List.ne_nil_of_length_pos (by omega)))
    · obtain rfl : body' = body := Option.some.inj (hafter'.symm.trans hafter)
      exact hbody
  · exact fun hbody => .inr ⟨body, h4, hafter, hbody⟩

/-- Behind a header that came without a failing read, the result is right when it is not 0 and a
failing read makes it negative. -/
theorem classified_of_header (h4 : 4 ≤ c.incoming.length)
    (hhead : readn 4 junk c script = some ⟨4, poke junk 0 (c.incoming.take 4),
      { c with incoming := c.incoming.drop 4 }, rest⟩) :
    Classified junk c script r ↔
      r.ret ≠ 0 ∧ (.err ∈ usedUp script r.script → r.ret < 0) := by
  have hne : c.incoming ≠ [] := List.ne_nil_of_length_pos (by omega)
  constructor
  · intro hclass
    exact ⟨fun hzero => not_eofFirst hne (hclass.zero.mp hzero), hclass.error⟩
  · rintro ⟨hret, herr⟩
    refine ⟨⟨fun hzero => absurd hzero hret, fun heof => absurd heof (not_eofFirst hne)⟩, herr, ?_,
      fun _ _ => hret⟩
    intro h hh _
    rw [hhead] at hh
    cases hh
    refine ⟨rfl, ?_⟩
    rw [List.length_drop]
    omega

/-- A `readn` that counts its bytes: its result tells of a failing read exactly when the reads are
sound. -/
theorem counted_sound_iff {len k d : Nat} {used : List ReadOutcome} {buff : Memory} {b : ReadRes}
    (h0 : 0 < len) (hsize : len < 2 ^ 32) (hne : c.incoming ≠ [])
    (hb : readn len buff c (.got k :: rest) = some b)
    (htally : Tally len 0 c (.got k :: rest) b used d) :
    (b.ret ≠ 0 ∧ (.err ∈ used → b.ret < 0)) ↔ BodySound len c.incoming.length (.got k :: rest) := by
  have hlen : 0 < c.incoming.length := List.length_pos_of_ne_nil hne
  have htaken := htally.taken
  rcases htally.count with ⟨hlast, hd, hno⟩ | ⟨hlast, -, hout⟩
  · -- the count came to the length
    rw [hlast, ofNat_neg_iff hsize]
    constructor
    · rintro ⟨-, hneg⟩
      refine .inr ⟨h0, hlen, ?_⟩
      by_cases herr : .err ∈ used
      · exact .inr (.inr (hneg herr))
      · exact .inl ⟨_, htally.clean herr⟩
    · rintro (⟨rest', hbody⟩ | ⟨-, -, ⟨rest', hbody⟩ | hout | hbig⟩)
      · cases hbody
      · refine ⟨ofNat_ne_zero h0 hsize, fun herr => ?_⟩
        -- the bytes that came are exactly those of the message, so no read failed
        have hpos : 0 < used.count .err := List.count_pos_iff.mpr herr
        rw [readn_afterBytes h0 (by omega) (by omega) hbody buff] at hb
        have hleft : b.conn.incoming.length = (c.incoming.drop len).length :=
          congrArg (fun b => b.conn.incoming.length) (Option.some.inj hb).symm
        rw [List.length_drop] at hleft
        omega
      · exact absurd hout hno
      · exact ⟨ofNat_ne_zero h0 hsize, fun _ => hbig⟩
  · -- the count went below 0
    rw [hlast]
    constructor
    · exact fun _ => .inr ⟨h0, hlen, .inr (.inl hout)⟩
    · exact fun _ => ⟨by decide, fun _ => by decide⟩

/-- The message behind a header that came without a failing read. -/
theorem body_classified_iff {hs body : List ReadOutcome} (h4 : 4 ≤ c.incoming.length)
    (hscript : script = hs ++ body) (hclean : .err ∉ hs) (hafter : afterBytes 4 script = some body)
    {buff : Memory} {b : ReadRes}
    (hb : readn (announced c.incoming).toNat buff { c with incoming := c.incoming.drop 4 } body =
      some b)
    (hret : r.ret = b.ret) (hrest : r.script = b.script) :
    Classified junk c script r ↔
      BodySound (announced c.incoming).toNat (c.incoming.length - 4) body := by
  have hsize := (announced c.incoming).toNat_lt
  have hdrop : (c.incoming.drop 4).length = c.incoming.length - 4 := List.length_drop
  rw [classified_of_header h4 (readn_afterBytes (by decide) (by decide) h4 hafter junk), hret, hrest,
    ← hdrop]
  cases readn_ending (by omega) hb with
  | failed =>
      constructor
      · exact fun _ => .inl ⟨_, rfl⟩
      · exact fun _ => ⟨show (-1 : Int32) ≠ 0 by decide, fun _ => show (-1 : Int32) < 0 by decide⟩
  | nothing hnone =>
      constructor
      · exact fun h => absurd rfl h.1
      · rintro (⟨rest, hbody⟩ | ⟨hpos, hlen, -⟩)
        · cases hbody
        · rcases hnone with hzero | ⟨hnil, -⟩
          · omega
          · exact absurd hnil (List.ne_nil_of_length_pos hlen)
  | counted h0 hne htally =>
      rename_i k body used d
      have hused : usedUp script b.script = hs ++ used := by
        rw [hscript, htally.split, ← List.append_assoc]
        exact usedUp_append _ _
      rw [hused, List.mem_append, or_iff_right hclean]
      exact counted_sound_iff h0 hsize hne hb htally

/-- The first read of the header fails: the error is not seen, and the length is whatever was in
memory. -/
theorem classified_failed_iff {buff : Memory} {rest : List ReadOutcome}
    (hh : readn 4 junk c (.err :: rest) = some ⟨-1, buff, c, rest⟩) :
    Classified junk c (.err :: rest) r ↔ Sound c (.err :: rest) := by
  constructor
  · intro hclass
    have hfour := (hclass.header _ hh (show (-1 : Int32) ≠ 0 by decide)).1
    exact absurd hfour (show (-1 : Int32) ≠ 4 by decide)
  · rintro (⟨-, -, k, rest', heq⟩ | ⟨body, -, hafter, -⟩)
    · cases heq
    · cases hafter

/-- End-of-file before the header. -/
theorem classified_eof_iff {buff : Memory} {k : Nat} {rest : List ReadOutcome}
    (hnil : c.incoming = []) (hclosed : c.closed = true)
    (hh : readn 4 junk c (.got k :: rest) = some ⟨0, buff, c, rest⟩) (hret : r.ret = 0)
    (hrest : r.script = rest) :
    Classified junk c (.got k :: rest) r ↔ Sound c (.got k :: rest) := by
  have heof : EofFirst c (.got k :: rest) := ⟨hnil, hclosed, k, rest, rfl⟩
  refine ⟨fun _ => .inl heof, fun _ => ⟨⟨fun _ => heof, fun _ => hret⟩, ?_, ?_, ?_⟩⟩
  · intro herr
    have hused : usedUp (.got k :: rest) rest = [.got k] := usedUp_append [.got k] rest
    rw [hrest, hused] at herr
    cases List.mem_singleton.mp herr
  · intro h hh' hne
    rw [hh] at hh'
    cases hh'
    exact absurd rfl hne
  · intro h4
    rw [hnil] at h4
    exact absurd h4 (by decide)

section

variable {k d : Nat} {rest used : List ReadOutcome} {h : ReadRes}

/-- A read of the header fails behind its first byte: the length is not the one in the header. -/
theorem classified_header_error_iff (hne : c.incoming ≠ [])
    (hh : readn 4 junk c (.got k :: rest) = some h)
    (htally : Tally 4 0 c (.got k :: rest) h used d) (herr : .err ∈ used) :
    Classified junk c (.got k :: rest) r ↔ Sound c (.got k :: rest) := by
  have htaken := htally.taken
  have hpos : 0 < used.count .err := List.count_pos_iff.mpr herr
  constructor
  · intro hclass
    rcases htally.count with ⟨hret, hd, -⟩ | ⟨hret, -, -⟩
    · have hfour := (hclass.header h hh (by rw [hret]; decide)).2
      omega
    · have hfour := (hclass.header h hh (by rw [hret]; decide)).1
      rw [hret] at hfour
      exact absurd hfour (by decide)
  · rintro (heof | ⟨body, h4, hafter, -⟩)
    · exact absurd heof (not_eofFirst hne)
    · rw [readn_afterBytes (by decide) (by decide) h4 hafter junk] at hh
      cases hh
      rw [List.length_drop] at htaken
      rcases htally.count with ⟨-, hd, -⟩ | ⟨hret, -, -⟩
      · omega
      · exact absurd hret (show Int32.ofNat 4 ≠ -1 by decide)

/-- No read of the header fails: it is all there, and it is read. -/
theorem header_of_tally (hh : readn 4 junk c (.got k :: rest) = some h)
    (htally : Tally 4 0 c (.got k :: rest) h used d) (herr : .err ∉ used) :
    4 ≤ c.incoming.length ∧ afterBytes 4 (.got k :: rest) = some h.script ∧ h.ret = 4 ∧
      h.mem = poke junk 0 (c.incoming.take 4) ∧
      h.conn = { c with incoming := c.incoming.drop 4 } := by
  have htaken := htally.taken
  have hcount := htally.count
  rw [List.count_eq_zero_of_not_mem herr] at hcount
  have h4 : 4 ≤ c.incoming.length := by omega
  have hafter := htally.clean herr
  have hh' := readn_afterBytes (by decide) (by decide) h4 hafter junk
  rw [hh] at hh'
  have heq := Option.some.inj hh'
  exact ⟨h4, hafter, congrArg ReadRes.ret heq, congrArg ReadRes.mem heq, congrArg ReadRes.conn heq⟩

end

/-- **When the result of a `tcp_read` tells what happened**: for every connection, every outcome of
its reads and every `maxsize` with which it returns. -/
theorem tcpRead_classified_iff (maxsize : UInt32) (bufs : Bufs) (junk fresh : Memory) (c : Conn)
    (script : List ReadOutcome) (r : TcpReadRes)
    (hr : tcpRead maxsize bufs junk fresh c script = some r) :
    Classified junk c script r ↔ Sound c script := by
  obtain ⟨h, hh, hbody⟩ := tcpRead_cases hr
  cases readn_ending (by decide) hh with
  | failed => exact classified_failed_iff hh
  | nothing hnone =>
      obtain ⟨hnil, hclosed⟩ := hnone.resolve_left (by decide)
      rcases hbody with ⟨-, rfl⟩ | ⟨hne, -⟩
      · exact classified_eof_iff hnil hclosed hh rfl rfl
      · exact absurd rfl hne
  | counted h0 hne htally =>
      rename_i k rest used d
      by_cases herr : .err ∈ used
      · exact classified_header_error_iff hne hh htally herr
      · obtain ⟨h4, hafter, hfour, hmem, hconn⟩ := header_of_tally hh htally herr
        rcases hbody with ⟨hzero, -⟩ | ⟨-, buff, b, hb, hr'⟩
        · rw [hfour] at hzero
          exact absurd hzero (by decide)
        · rw [hmem, hconn, decode32_header junk h4] at hb
          rw [body_classified_iff h4 htally.split herr hafter hb hr'.1 hr'.2]
          exact (sound_iff h4 hafter).symm

end

/-- A message of one byte in two reads. -/
theorem tcpRead_classified_one_byte :
    ∃ r, tcpRead 8 ⟨fun _ => 0, fun _ => 0, 0, false⟩ (fun _ => 0) (fun _ => 0)
        ⟨[1, 0, 0, 0, 9], false⟩ [.got 3, .got 0] = some r ∧
      (Classified (fun _ => 0) ⟨[1, 0, 0, 0, 9], false⟩ [.got 3, .got 0] r ↔
        Sound ⟨[1, 0, 0, 0, 9], false⟩ [.got 3, .got 0]) :=
  ⟨_, rfl, tcpRead_classified_iff 8 ⟨fun _ => 0, fun _ => 0, 0, false⟩ _ (fun _ => 0) _ _ _ rfl⟩

/-- When the first read fails with zeros in `msglen`, and when an empty message has come, `tcp_read`
returns 0 on a connection that is open. -/
theorem tcpRead_misclassified :
    (∃ r, tcpRead 8 ⟨fun _ => 0, fun _ => 0, 0, false⟩ (fun _ => 0) (fun _ => 0)
        ⟨[7], false⟩ [.err, .got 0] = some r ∧
      r.ret = 0 ∧ ¬ Classified (fun _ => 0) ⟨[7], false⟩ [.err, .got 0] r) ∧
    (∃ r, tcpRead 8 ⟨fun _ => 0, fun _ => 0, 0, false⟩ (fun _ => 0) (fun _ => 0)
        ⟨[0, 0, 0, 0], false⟩ [.got 3, .got 0] = some r ∧
      r.ret = 0 ∧ ¬ Classified (fun _ => 0) ⟨[0, 0, 0, 0], false⟩ [.got 3, .got 0] r) := by
  refine ⟨⟨_, rfl, rfl, fun hclass => ?_⟩, ⟨_, rfl, rfl, fun hclass => ?_⟩⟩
  · exact absurd (hclass.zero.mp rfl).1 (by decide)
  · exact absurd (hclass.zero.mp rfl).1 (by decide)

end CommTest.Socket
