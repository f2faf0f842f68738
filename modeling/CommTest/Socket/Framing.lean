import CommTest.Lib.Mem
import Mathlib.Data.List.Basic
import Mathlib.Tactic.SplitIfs

/-!
# Frames on a TCP connection

A message goes over a connection as a frame: its length in four bytes, in the byte order of the
host, then its bytes.

* `read` and `write` are the system calls. A call transfers some of the bytes it was asked for; how
  many is an input of the model, as is whether the call fails.
* `readn` / `writen` are the loops around them, run along the list of the outcomes of their calls;
  `none` says that the list ends while the loop is still running. `readn` keeps its count in a
  `size_t`, in which the error of `read` is a huge number and no value is negative.
* `MsgT.ofPayload` and `tcpWrite` are the two ways to make a frame, `tcpRead` takes one apart.
* `Tally` and `readLoop_balance`: what the count of `readn` is when reads fail, where a failing one
  takes one off it.
* `readn_spec`, `writen_spec`: however the calls split the bytes, the loops transfer exactly `len`
  of them, with at most `len` calls.
* `tcpRead_frame`: a frame at the head of the stream is read back and nothing behind it is touched.
-/

set_option linter.unusedSectionVars false

namespace CommTest.Socket

open Mem

/-- A byte string. -/
abbrev Bytes := List UInt8

/-- The bytes behind a pointer. -/
abbrev Memory := Nat → UInt8

/-! ## System calls -/

/-- Linux transfers at most this many bytes in one `read` or `write`. -/
def rwMax : Nat := 0x7ffff000

/-- The receiving end of a connection: the bytes not yet read, and whether the peer closes the
connection behind them. -/
structure Conn where
  incoming : Bytes
  closed : Bool
  deriving DecidableEq

/-- The outcome of one `read`: up to `k + 1` bytes, or an error. -/
inductive ReadOutcome
  | got (k : Nat)
  | err
  deriving DecidableEq

/-- `read(fd, buff, len)`: its result as a `size_t`, the bytes stored and the connection after it.
With nothing to read it waits, or returns 0 when the peer has closed. -/
def read (len : Nat) (c : Conn) : ReadOutcome → Option (Nat × Bytes × Conn)
  | .err => some (2 ^ 64 - 1, [], c)
  | .got k =>
      if len = 0 then some (0, [], c)
      else if c.incoming = [] then
        if c.closed then some (0, [], c) else none
      else
        let chunk := c.incoming.take (min (k + 1) (min len rwMax))
        some (chunk.length, chunk, { c with incoming := c.incoming.drop chunk.length })

/-- The outcome of one `write`: up to `k + 1` bytes, or an error. -/
inductive WriteOutcome
  | put (k : Nat)
  | err
  deriving DecidableEq

/-- `write(fd, buff, len)`: its result and the bytes that go out. -/
def write (buff : Bytes) (len : Nat) : WriteOutcome → Int × Bytes
  | .err => (-1, [])
  | .put k =>
      let chunk := (buff.take len).take (min (k + 1) rwMax)
      (chunk.length, chunk)

/-! ## readn and writen -/

/-- What a reading loop leaves behind. -/
structure ReadRes where
  ret : Int32
  mem : Memory
  conn : Conn
  script : List ReadOutcome

/-- The `while(readbytes < len)` loop of `readn`. The test `readmore < 0` is never true, so an error
of `read` goes into the sum. Source: `util.cpp`, `readn`. -/
def readLoop (len : Nat) : Nat → Memory → Conn → List ReadOutcome → Option ReadRes
  | readbytes, buff, c, [] =>
      if readbytes < len then none else some ⟨Int32.ofNat readbytes, buff, c, []⟩
  | readbytes, buff, c, o :: script =>
      if readbytes < len then
        match read (len - readbytes) c o with
        | some (readmore, chunk, c') =>
            readLoop len ((readbytes + readmore) % 2 ^ 64) (poke buff readbytes chunk) c' script
        | none => none
      else some ⟨Int32.ofNat readbytes, buff, c, o :: script⟩

/-- Source: `util.cpp`, `readn`. -/
def readn (len : Nat) (buff : Memory) (c : Conn) : List ReadOutcome → Option ReadRes
  | [] => none
  | o :: script =>
      match read len c o with
      | some (readbytes, chunk, c') =>
          if readbytes = 0 then some ⟨0, poke buff 0 chunk, c', script⟩
          else readLoop len readbytes (poke buff 0 chunk) c' script
      | none => none

/-- What a writing loop leaves behind; `out` is everything on the connection so far. -/
structure WriteRes where
  ret : Int32
  out : Bytes
  script : List WriteOutcome

/-- The loop of `writen` from index `i` on. Source: `util.cpp`, `writen`. -/
def writenFrom (buff : Bytes) (len : Nat) : Nat → Bytes → List WriteOutcome → Option WriteRes
  | i, out, [] => if i < len then none else some ⟨Int32.ofNat i, out, []⟩
  | i, out, o :: script =>
      if i < len then
        let r := write (buff.drop i) (len - i) o
        let written := Int32.ofInt r.1
        if written < 0 then some ⟨-1, out ++ r.2, script⟩
        else writenFrom buff len (i + written.toNatClampNeg) (out ++ r.2) script
      else some ⟨Int32.ofNat i, out, o :: script⟩

/-- Source: `util.cpp`, `writen`. -/
def writen (buff : Bytes) (len : Nat) : Bytes → List WriteOutcome → Option WriteRes :=
  writenFrom buff len 0

/-! ## Frames -/

/-- A message and its length, as the calls take them: `(uint8_t *msg, dsize_t len)`. -/
structure Payload where
  bytes : Bytes
  fits : bytes.length < 2 ^ 32

namespace Payload

/-- `dsize_t len`. -/
def len (p : Payload) : UInt32 := UInt32.ofNat p.bytes.length

@[simp] theorem toNat_len (p : Payload) : p.len.toNat = p.bytes.length := by
  rw [len, UInt32.toNat_ofNat']
  exact Nat.mod_eq_of_lt p.fits

end Payload

/-- A frame: length, then bytes. -/
def frame (p : Payload) : Bytes := encode32 p.len ++ p.bytes

@[simp] theorem length_frame (p : Payload) : (frame p).length = p.bytes.length + 4 := by
  rw [frame, List.length_append, length_encode32, Nat.add_comm]

/-- `enum msg_type`. -/
inductive MsgType
  | exit
  | write
  deriving DecidableEq

/-- `msg_t`: a message for a writer thread; `sock` is the index of its socket there, negative for
all of them. -/
structure MsgT where
  type : MsgType
  data : Bytes
  len : UInt32
  sock : Int
  deriving DecidableEq

/-- The constructor of `msg_t`: `data` has room for `l + sizeof(dsize_t)` bytes, a `size_t`, but
`len` is a `dsize_t`. Source: `threadpool.hpp`, `msg_t`. -/
def MsgT.ofPayload (t : MsgType) (p : Payload) (s : Int) : MsgT where
  type := t
  data := encode32 p.len ++ p.bytes
  len := p.len + 4
  sock := s

/-- Source: `tcp_comm.cpp`, `tcp_write`. The test `n < 0` of its unsigned `n` is never true. -/
def tcpWrite (p : Payload) (out : Bytes) (script : List WriteOutcome) : Option WriteRes :=
  match writen (encode32 p.len) 4 out script with
  | some h => writen p.bytes p.len.toNat h.out h.script
  | none => none

/-- The buffers of a reader thread: the shared one, the temporary one with the size it was allocated
with, and the flag that says which of them holds the message. -/
structure Bufs where
  rdbuf : Memory
  tempbuf : Memory
  tempsize : Nat
  useTempbuf : Bool

/-- The buffer selected by `use_tempbuf`. -/
def Bufs.data (b : Bufs) : Memory := if b.useTempbuf then b.tempbuf else b.rdbuf

/-- What `tcp_read` leaves behind. -/
structure TcpReadRes where
  ret : Int32
  bufs : Bufs
  conn : Conn
  script : List ReadOutcome

/-- `junk` is the memory of its local `msglen` and `fresh` that of the buffer it may allocate. The
test `n < 0` of its unsigned `n` is never true. Source: `tcp_comm.cpp`, `tcp_read`. -/
def tcpRead (maxsize : UInt32) (bufs : Bufs) (junk fresh : Memory) (c : Conn)
    (script : List ReadOutcome) : Option TcpReadRes :=
  match readn 4 junk c script with
  | none => none
  | some h =>
      if h.ret.toUInt32 = 0 then some ⟨0, bufs, h.conn, h.script⟩
      else
        let msglen := decode32 (peek h.mem 4)
        if msglen ≤ maxsize then
          match readn msglen.toNat bufs.rdbuf h.conn h.script with
          | some b =>
              some ⟨b.ret.toUInt32.toInt32, { bufs with rdbuf := b.mem, useTempbuf := false },
                b.conn, b.script⟩
          | none => none
        else
          match readn msglen.toNat fresh h.conn h.script with
          | some b =>
              some ⟨b.ret.toUInt32.toInt32,
                { bufs with tempbuf := b.mem, tempsize := (msglen + 1).toNat, useTempbuf := true },
                b.conn, b.script⟩
          | none => none

/-! ## Calls that do not fail -/

/-- `rest` is what is left of the outcomes `ks` after at most `n` calls. -/
def Within (n : Nat) (ks rest : List Nat) : Prop := ∃ used, ks = used ++ rest ∧ used.length ≤ n

theorem Within.refl (n : Nat) (ks : List Nat) : Within n ks ks := ⟨[], rfl, Nat.zero_le n⟩

theorem Within.cons {n m : Nat} {k : Nat} {ks rest : List Nat} (h : Within n ks rest)
    (hnm : n < m) : Within m (k :: ks) rest := by
  obtain ⟨used, rfl, hlen⟩ := h
  refine ⟨k :: used, rfl, ?_⟩
  rw [List.length_cons]
  omega

theorem Within.trans {n m : Nat} {ks mid rest : List Nat} (h : Within n ks mid)
    (h' : Within m mid rest) : Within (n + m) ks rest := by
  obtain ⟨used, rfl, hlen⟩ := h
  obtain ⟨used', rfl, hlen'⟩ := h'
  refine ⟨used ++ used', ?_, ?_⟩
  · rw [List.append_assoc]
  · rw [List.length_append]
    omega

theorem Within.length_le {n : Nat} {ks rest : List Nat} (h : Within n ks rest) :
    ks.length ≤ n + rest.length := by
  obtain ⟨used, rfl, hlen⟩ := h
  rw [List.length_append]
  omega

/-- How many of `avail` bytes a `read` of `len` bytes takes. -/
def chunkSize (len k avail : Nat) : Nat := min (min (k + 1) (min len rwMax)) avail

theorem chunkSize_pos {len avail : Nat} (k : Nat) (h0 : 0 < len) (havail : 0 < avail) :
    0 < chunkSize len k avail := by
  unfold chunkSize rwMax
  omega

theorem chunkSize_le (len k avail : Nat) :
    chunkSize len k avail ≤ len ∧ chunkSize len k avail ≤ avail := by
  unfold chunkSize
  omega

/-- A `read` with something to come takes a chunk of it. -/
theorem read_nonempty {len : Nat} {c : Conn} (k : Nat) (h0 : 0 < len) (hne : c.incoming ≠ []) :
    read len c (.got k) = some (chunkSize len k c.incoming.length,
      c.incoming.take (chunkSize len k c.incoming.length),
      { c with incoming := c.incoming.drop (chunkSize len k c.incoming.length) }) := by
  have htake : c.incoming.take (min (k + 1) (min len rwMax)) =
      c.incoming.take (chunkSize len k c.incoming.length) := by
    unfold chunkSize
    rw [List.take_eq_take_iff]
    omega
  have hlen : (c.incoming.take (chunkSize len k c.incoming.length)).length =
      chunkSize len k c.incoming.length := List.length_take_of_le (chunkSize_le _ _ _).2
  simp only [read, if_neg (Nat.pos_iff_ne_zero.mp h0), if_neg hne, htake, hlen]

/-- A `read` with enough bytes to come takes between one and `len` of them. -/
theorem read_got {len : Nat} {c : Conn} (k : Nat) (h0 : 0 < len) (h : len ≤ c.incoming.length) :
    ∃ n, 0 < n ∧ n ≤ len ∧ read len c (.got k) =
      some (n, c.incoming.take n, { c with incoming := c.incoming.drop n }) := by
  have hpos : 0 < c.incoming.length := Nat.lt_of_lt_of_le h0 h
  exact ⟨_, chunkSize_pos k h0 hpos, (chunkSize_le _ _ _).1,
    read_nonempty k h0 (List.ne_nil_of_length_pos hpos)⟩

/-- A `read` that does not fail returns a count that fits an `int`. -/
theorem read_count_lt {len k n : Nat} {c c' : Conn} {chunk : Bytes}
    (h : read len c (.got k) = some (n, chunk, c')) : n < 2 ^ 31 := by
  simp only [read] at h
  split_ifs at h
  · cases h
    decide
  · cases h
    decide
  · cases h
    refine Nat.lt_of_le_of_lt (List.length_take_le _ _) ?_
    unfold rwMax
    omega

/-- A count that fits an `int` is not a negative one. -/
theorem ofNat_not_neg {n : Nat} (h : n < 2 ^ 31) : ¬ Int32.ofNat n < 0 := by
  have hz : (0 : Int32).toInt = 0 := by decide
  rw [Int32.lt_iff_toInt_lt, Int32.toInt_ofNat_of_lt h]
  omega

/-! ## The count of the loop -/

theorem readLoop_done {len readbytes : Nat} (h : ¬ readbytes < len) (buff : Memory) (c : Conn)
    (script : List ReadOutcome) :
    readLoop len readbytes buff c script = some ⟨Int32.ofNat readbytes, buff, c, script⟩ := by
  cases script with
  | nil => simp only [readLoop, if_neg h]
  | cons o script => simp only [readLoop, if_neg h]

/-- What is left of the outcomes when `n` bytes have been read by calls that did not fail. -/
def afterBytes : Nat → List ReadOutcome → Option (List ReadOutcome)
  | n, [] => if n = 0 then some [] else none
  | n, o :: script =>
      if n = 0 then some (o :: script)
      else
        match o with
        | .got k => afterBytes (n - min (k + 1) rwMax) script
        | .err => none

/-- The failing reads of a loop that has `n` of its `len` bytes get ahead of the bytes. -/
def Outnumbered (len : Nat) : Nat → Nat → List ReadOutcome → Prop
  | _, _, [] => False
  | n, avail, .err :: script => n < len ∧ (n = 0 ∨ Outnumbered len (n - 1) avail script)
  | n, avail, .got k :: script =>
      n < len ∧ Outnumbered len (n + chunkSize (len - n) k avail)
        (avail - chunkSize (len - n) k avail) script

theorem not_outnumbered {len n : Nat} (h : ¬ n < len) (avail : Nat) (script : List ReadOutcome) :
    ¬ Outnumbered len n avail script := by
  cases script with
  | nil => exact id
  | cons o script =>
      cases o with
      | err => exact fun hout => h hout.1
      | got k => exact fun hout => h hout.1

/-- What a `read` that does not fail takes from the stream. -/
theorem read_balance {len k n : Nat} {c c' : Conn} {chunk : Bytes} (h0 : 0 < len)
    (h : read len c (.got k) = some (n, chunk, c')) :
    n = chunkSize len k c.incoming.length ∧ c'.incoming.length = c.incoming.length - n ∧
      n ≤ c.incoming.length := by
  by_cases hne : c.incoming = []
  · simp only [read, if_neg (Nat.pos_iff_ne_zero.mp h0), if_pos hne] at h
    split_ifs at h
    cases h
    refine ⟨?_, rfl, Nat.zero_le _⟩
    rw [hne, List.length_nil]
    unfold chunkSize
    omega
  · rw [read_nonempty k h0 hne] at h
    cases h
    exact ⟨rfl, List.length_drop, (chunkSize_le _ _ _).2⟩

theorem ofNat_size_max : Int32.ofNat ((0 + (2 ^ 64 - 1)) % 2 ^ 64) = -1 := by decide

/-- A chunk of what is missing, when all of that is there. -/
theorem sub_chunkSize {n k avail : Nat} (hav : n ≤ avail) :
    n - chunkSize n k avail = n - min (k + 1) rwMax := by
  unfold chunkSize
  omega

/-- The balance of a loop that has `readbytes` of its `len` bytes, uses up the outcomes `used` and
takes `d` bytes from the stream: it ends with its count at `len`, as many bytes ahead of the failing
reads as were missing, or below 0 when the failing reads get ahead. Without a failing read the
outcomes are those that bring the missing bytes. -/
structure Tally (len readbytes : Nat) (c : Conn) (script : List ReadOutcome) (b : ReadRes)
    (used : List ReadOutcome) (d : Nat) : Prop where
  split : script = used ++ b.script
  taken : c.incoming.length = b.conn.incoming.length + d
  count : (b.ret = Int32.ofNat len ∧ readbytes + d = len + used.count .err ∧
      ¬ Outnumbered len readbytes c.incoming.length script) ∨
    (b.ret = -1 ∧ readbytes + d + 1 = used.count .err ∧
      Outnumbered len readbytes c.incoming.length script)
  clean : .err ∉ used → afterBytes (len - readbytes) script = some b.script

section

variable {len readbytes d : Nat} {c : Conn} {script used : List ReadOutcome} {b : ReadRes}

theorem Tally.done (len : Nat) (buff : Memory) (c : Conn) (script : List ReadOutcome) :
    Tally len len c script ⟨Int32.ofNat len, buff, c, script⟩ [] 0 where
  split := rfl
  taken := rfl
  count := .inl ⟨rfl, rfl, not_outnumbered (Nat.lt_irrefl len) _ _⟩
  clean := by
    intro _
    rw [Nat.sub_self]
    cases script with
    | nil => rfl
    | cons o script => rfl

/-- A read fails with the count at 0, which becomes the largest `size_t`. -/
theorem Tally.below (h0 : 0 < len) (buff : Memory) (c : Conn) (script : List ReadOutcome) :
    Tally len 0 c (.err :: script) ⟨-1, buff, c, script⟩ [.err] 0 where
  split := rfl
  taken := rfl
  count := .inr ⟨rfl, rfl, h0, .inl rfl⟩
  clean := fun hno => absurd List.mem_cons_self hno

/-- A read fails and takes one off the count. -/
theorem Tally.err (hpos : 0 < readbytes) (hlt : readbytes < len)
    (h : Tally len (readbytes - 1) c script b used d) :
    Tally len readbytes c (.err :: script) b (.err :: used) d where
  split := congrArg _ h.split
  taken := h.taken
  count := by
    have hout : Outnumbered len readbytes c.incoming.length (.err :: script) ↔
        Outnumbered len (readbytes - 1) c.incoming.length script :=
      ⟨fun h => h.2.resolve_left (by omega), fun h => ⟨hlt, .inr h⟩⟩
    rw [List.count_cons_self, hout]
    rcases h.count with ⟨hret, hsum, hno⟩ | ⟨hret, hsum, hyes⟩
    · exact .inl ⟨hret, by omega, hno⟩
    · exact .inr ⟨hret, by omega, hyes⟩
  clean := fun hno => absurd List.mem_cons_self hno

/-- A read brings `n` bytes. -/
theorem Tally.got {k n : Nat} {chunk : Bytes} {c' : Conn} (hlt : readbytes < len)
    (hread : read (len - readbytes) c (.got k) = some (n, chunk, c'))
    (h : Tally len (readbytes + n) c' script b used d) :
    Tally len readbytes c (.got k :: script) b (.got k :: used) (n + d) := by
  obtain ⟨hchunk, hleft, hav⟩ := read_balance (Nat.sub_pos_of_lt hlt) hread
  have htaken := h.taken
  have hout : Outnumbered len readbytes c.incoming.length (.got k :: script) ↔
      Outnumbered len (readbytes + n) c'.incoming.length script := by
    rw [Outnumbered, ← hchunk, ← hleft]
    exact and_iff_right hlt
  refine ⟨congrArg _ h.split, by omega, ?_, fun hno => ?_⟩
  · rw [List.count_cons_of_ne (by simp), hout]
    rcases h.count with ⟨hret, hsum, hno⟩ | ⟨hret, hsum, hyes⟩
    · exact .inl ⟨hret, by omega, hno⟩
    · exact .inr ⟨hret, by omega, hyes⟩
  · -- without a failing read there is enough in the stream for this one
    have hno' : ReadOutcome.err ∉ used := fun h => hno (List.mem_cons_of_mem _ h)
    have hcount := h.count
    rw [List.count_eq_zero_of_not_mem hno'] at hcount
    have hrest := h.clean hno'
    rw [← Nat.sub_sub, hchunk, sub_chunkSize (by omega)] at hrest
    simp only [afterBytes, if_neg (show ¬ len - readbytes = 0 by omega)]
    exact hrest

/-- The loop ends with its count at `len`. -/
theorem readLoop_end {buff : Memory} (hle : readbytes ≤ len) (hlt : ¬ readbytes < len)
    (h : readLoop len readbytes buff c script = some b) :
    ∃ used d, Tally len readbytes c script b used d := by
  obtain rfl : readbytes = len := by omega
  rw [readLoop_done hlt] at h
  cases h
  exact ⟨[], 0, .done readbytes buff c script⟩

end

/-- **The balance of the loop**, whatever the outcomes of its reads are. -/
theorem readLoop_balance {len : Nat} (hlen : len < 2 ^ 64) {script : List ReadOutcome} :
    ∀ {readbytes : Nat} {buff : Memory} {c : Conn} {b : ReadRes}, readbytes ≤ len →
    readLoop len readbytes buff c script = some b →
    ∃ used d, Tally len readbytes c script b used d := by
  induction script with
  | nil =>
      intro readbytes buff c b hle h
      by_cases hlt : readbytes < len
      · simp only [readLoop, if_pos hlt, reduceCtorEq] at h
      · exact readLoop_end hle hlt h
  | cons o script ih =>
      intro readbytes buff c b hle h
      by_cases hlt : readbytes < len
      · cases o with
        | err =>
            have hread : read (len - readbytes) c .err = some (2 ^ 64 - 1, [], c) := rfl
            simp only [readLoop, if_pos hlt, hread] at h
            rcases Nat.eq_zero_or_pos readbytes with rfl | hpos
            · rw [readLoop_done (by omega), ofNat_size_max] at h
              cases h
              exact ⟨_, _, .below hlt _ _ _⟩
            · rw [show (readbytes + (2 ^ 64 - 1)) % 2 ^ 64 = readbytes - 1 by omega] at h
              obtain ⟨used, d, htally⟩ := ih (by omega) h
              exact ⟨_, _, htally.err hpos hlt⟩
        | got k =>
            cases hread : read (len - readbytes) c (.got k) with
            | none => simp only [readLoop, if_pos hlt, hread, reduceCtorEq] at h
            | some r =>
                obtain ⟨n, chunk, c'⟩ := r
                have hchunk := (read_balance (Nat.sub_pos_of_lt hlt) hread).1
                have hn := (chunkSize_le (len - readbytes) k c.incoming.length).1
                rw [← hchunk] at hn
                simp only [readLoop, if_pos hlt, hread] at h
                rw [Nat.mod_eq_of_lt (show readbytes + n < 2 ^ 64 by omega)] at h
                obtain ⟨used, d, htally⟩ := ih (by omega) h
                exact ⟨_, _, htally.got hlt hread⟩
      · exact readLoop_end hle hlt h

/-- **The loop stores the missing bytes behind those it has**, when they come without a failing
read. -/
theorem readLoop_afterBytes {len : Nat} (hlen : len < 2 ^ 64) {script : List ReadOutcome} :
    ∀ {readbytes : Nat} (buff : Memory) {c : Conn} {rest : List ReadOutcome}, readbytes ≤ len →
    len - readbytes ≤ c.incoming.length → afterBytes (len - readbytes) script = some rest →
    readLoop len readbytes buff c script = some ⟨Int32.ofNat len,
      poke buff readbytes (c.incoming.take (len - readbytes)),
      { c with incoming := c.incoming.drop (len - readbytes) }, rest⟩ := by
  have hdone : ∀ {readbytes : Nat} (buff : Memory) {c : Conn} (script : List ReadOutcome),
      readbytes ≤ len → len - readbytes = 0 →
      readLoop len readbytes buff c script = some ⟨Int32.ofNat len,
        poke buff readbytes (c.incoming.take (len - readbytes)),
        { c with incoming := c.incoming.drop (len - readbytes) }, script⟩ := by
    intro readbytes buff c script hle hzero
    obtain rfl : readbytes = len := by omega
    rw [readLoop_done (Nat.lt_irrefl readbytes), hzero, List.take_zero, poke_nil, List.drop_zero]
  induction script with
  | nil =>
      intro readbytes buff c rest hle _ hafter
      simp only [afterBytes] at hafter
      split_ifs at hafter with hzero
      cases hafter
      exact hdone buff [] hle hzero
  | cons o script ih =>
      intro readbytes buff c rest hle hav hafter
      simp only [afterBytes] at hafter
      split_ifs at hafter with hzero
      · cases hafter
        exact hdone buff (o :: script) hle hzero
      cases o with
      | err => cases hafter
      | got k =>
          have hlt : readbytes < len := by omega
          obtain ⟨n, hn0, hnle, hread⟩ := read_got (c := c) k (Nat.sub_pos_of_lt hlt) hav
          have hmod : (readbytes + n) % 2 ^ 64 = readbytes + n := Nat.mod_eq_of_lt (by omega)
          have hchunk := (read_balance (Nat.sub_pos_of_lt hlt) hread).1
          have htake : (c.incoming.take n).length = n := by
            rw [List.length_take]
            omega
          have hrest : len - (readbytes + n) ≤ (c.incoming.drop n).length := by
            rw [List.length_drop]
            omega
          have hcut : len - readbytes = n + (len - (readbytes + n)) := by omega
          dsimp only at hafter
          rw [← sub_chunkSize hav, ← hchunk, Nat.sub_sub] at hafter
          have hloop := ih (poke buff readbytes (c.incoming.take n))
            (c := { c with incoming := c.incoming.drop n }) (by omega) hrest hafter
          -- the bytes of this call and those of the calls after it lie side by side
          have hpoke := poke_append buff readbytes (c.incoming.take n)
            ((c.incoming.drop n).take (len - (readbytes + n)))
          rw [htake, ← List.take_add, ← hcut] at hpoke
          simp only [readLoop, if_pos hlt, hread, hmod]
          rw [hloop, hpoke, List.drop_drop, ← hcut]

/-- Calls that do not fail bring the bytes, or there are too few of them. -/
theorem afterBytes_got (n : Nat) (ks : List Nat) :
    (∃ rest, Within n ks rest ∧ afterBytes n (ks.map .got) = some (rest.map .got)) ∨
    (afterBytes n (ks.map .got) = none ∧ ks.length < n) := by
  induction ks generalizing n with
  | nil =>
      rcases Nat.eq_zero_or_pos n with rfl | hpos
      · exact .inl ⟨[], Within.refl _ _, rfl⟩
      · exact .inr ⟨if_neg (Nat.pos_iff_ne_zero.mp hpos), hpos⟩
  | cons k ks ih =>
      rcases Nat.eq_zero_or_pos n with rfl | hpos
      · exact .inl ⟨k :: ks, Within.refl _ _, rfl⟩
      · have hstep : afterBytes n ((k :: ks).map .got) =
            afterBytes (n - min (k + 1) rwMax) (ks.map .got) := by
          simp only [List.map_cons, afterBytes, if_neg (Nat.pos_iff_ne_zero.mp hpos)]
        have hless : n - min (k + 1) rwMax < n := by
          unfold rwMax
          omega
        rw [hstep]
        rcases ih (n - min (k + 1) rwMax) with ⟨rest, hwithin, hrest⟩ | ⟨hnone, hshort⟩
        · exact .inl ⟨rest, hwithin.cons hless, hrest⟩
        · refine .inr ⟨hnone, ?_⟩
          rw [List.length_cons]
          omega

theorem err_not_mem_used {ks : List Nat} {used rest : List ReadOutcome}
    (h : ks.map ReadOutcome.got = used ++ rest) : .err ∉ used := by
  intro herr
  have hmem : ReadOutcome.err ∈ ks.map .got := h ▸ List.mem_append_left _ herr
  obtain ⟨k, -, hk⟩ := List.mem_map.mp hmem
  cases hk

/-- The loop of `readn` stores the missing bytes behind those it has, or waits for more calls. -/
theorem readLoop_spec {len : Nat} (hlen : len < 2 ^ 64) (ks : List Nat) {readbytes : Nat}
    (buff : Memory) (c : Conn) (hle : readbytes ≤ len) (hav : len - readbytes ≤ c.incoming.length) :
    (∃ rest, Within (len - readbytes) ks rest ∧
      readLoop len readbytes buff c (ks.map .got) = some ⟨Int32.ofNat len,
        poke buff readbytes (c.incoming.take (len - readbytes)),
        { c with incoming := c.incoming.drop (len - readbytes) }, rest.map .got⟩) ∨
    (readLoop len readbytes buff c (ks.map .got) = none ∧ ks.length < len - readbytes) := by
  rcases afterBytes_got (len - readbytes) ks with ⟨rest, hwithin, hrest⟩ | ⟨hnone, hshort⟩
  · exact .inl ⟨rest, hwithin, readLoop_afterBytes hlen buff hle hav hrest⟩
  · refine .inr ⟨?_, hshort⟩
    by_contra hsome
    obtain ⟨b, hb⟩ := Option.ne_none_iff_exists'.mp hsome
    obtain ⟨used, d, htally⟩ := readLoop_balance hlen hle hb
    have hclean := htally.clean (err_not_mem_used htally.split)
    rw [hnone] at hclean
    cases hclean

/-! ## readn and tcp_read on a whole message -/

/-- With something to come, the call before the loop does what a first round of the loop from 0
would do. -/
theorem readn_eq_readLoop {len : Nat} (h0 : 0 < len) {c : Conn} (hne : c.incoming ≠ [])
    (buff : Memory) (k : Nat) (script : List ReadOutcome) :
    readn len buff c (.got k :: script) = readLoop len 0 buff c (.got k :: script) := by
  have hread := read_nonempty k h0 hne
  have hpos := chunkSize_pos k h0 (List.length_pos_of_ne_nil hne)
  have hcount := read_count_lt hread
  have hmod : (0 + chunkSize len k c.incoming.length) % 2 ^ 64 =
      chunkSize len k c.incoming.length := by
    rw [Nat.zero_add]
    exact Nat.mod_eq_of_lt (by omega)
  simp only [readn, readLoop, Nat.sub_zero, hread, hmod, if_pos h0,
    if_neg (Nat.pos_iff_ne_zero.mp hpos)]

/-- `readn` of nothing, or at the end of the stream, returns 0 behind its first call. -/
theorem readn_nothing (len : Nat) {c : Conn}
    (h : len = 0 ∨ (c.incoming = [] ∧ c.closed = true)) (buff : Memory) (k : Nat)
    (script : List ReadOutcome) :
    readn len buff c (.got k :: script) = some ⟨0, buff, c, script⟩ := by
  have hread : read len c (.got k) = some (0, [], c) := by
    rcases h with rfl | ⟨hnil, hclosed⟩
    · rfl
    · simp only [read, hnil, hclosed, if_true, ite_self]
  simp only [readn, hread, if_true, poke_nil]

/-- **`readn` reads exactly `len` bytes**, or waits for more calls. -/
theorem readn_spec {len : Nat} (h0 : 0 < len) (hlen : len < 2 ^ 64) (ks : List Nat) (buff : Memory)
    (c : Conn) (hav : len ≤ c.incoming.length) :
    (∃ rest, Within len ks rest ∧ readn len buff c (ks.map .got) = some ⟨Int32.ofNat len,
        poke buff 0 (c.incoming.take len), { c with incoming := c.incoming.drop len },
        rest.map .got⟩) ∨
    (readn len buff c (ks.map .got) = none ∧ ks.length < len) := by
  have hloop : readn len buff c (ks.map .got) = readLoop len 0 buff c (ks.map .got) := by
    cases ks with
    | nil => simp [readn, readLoop, h0]
    | cons k ks => exact readn_eq_readLoop h0 (List.ne_nil_of_length_pos (by omega)) buff k _
  rw [hloop]
  exact readLoop_spec hlen ks buff c (Nat.zero_le len) hav

/-- The buffer that a message of length `msglen` is read into. -/
def Bufs.target (bufs : Bufs) (fresh : Memory) (maxsize msglen : UInt32) : Memory :=
  if msglen ≤ maxsize then bufs.rdbuf else fresh

/-- The buffers after it has been read. -/
def Bufs.filled (bufs : Bufs) (maxsize msglen : UInt32) (m : Memory) : Bufs :=
  if msglen ≤ maxsize then { bufs with rdbuf := m, useTempbuf := false }
  else { bufs with tempbuf := m, tempsize := (msglen + 1).toNat, useTempbuf := true }

theorem Bufs.data_filled (bufs : Bufs) (maxsize msglen : UInt32) (m : Memory) :
    (bufs.filled maxsize msglen m).data = m := by
  unfold Bufs.filled Bufs.data
  split_ifs <;> simp_all

theorem Bufs.useTempbuf_filled (bufs : Bufs) (maxsize msglen : UInt32) (m : Memory) :
    (bufs.filled maxsize msglen m).useTempbuf = decide (¬ msglen ≤ maxsize) := by
  unfold Bufs.filled
  split_ifs with h <;> simp [h]

/-- `tcp_read` behind a header that was read. -/
theorem tcpRead_of_header (maxsize : UInt32) (bufs : Bufs) {junk : Memory} (fresh : Memory) {c : Conn}
    {script : List ReadOutcome} {h : ReadRes} (hh : readn 4 junk c script = some h)
    (hret : h.ret.toUInt32 ≠ 0) :
    tcpRead maxsize bufs junk fresh c script =
      (readn (decode32 (peek h.mem 4)).toNat (bufs.target fresh maxsize (decode32 (peek h.mem 4)))
        h.conn h.script).map fun b =>
          ⟨b.ret, bufs.filled maxsize (decode32 (peek h.mem 4)) b.mem, b.conn, b.script⟩ := by
  unfold tcpRead Bufs.target Bufs.filled
  simp only [hh, if_neg hret]
  split_ifs with hbuf
  · cases readn (decode32 (peek h.mem 4)).toNat bufs.rdbuf h.conn h.script <;> rfl
  · cases readn (decode32 (peek h.mem 4)).toNat fresh h.conn h.script <;> rfl

/-- The length that the first four bytes of a stream announce. -/
def announced (bytes : Bytes) : UInt32 := decode32 (bytes.take 4)

/-- The variable `msglen` behind the read of a header that is all there. -/
theorem decode32_header (junk : Memory) {bytes : Bytes} (h4 : 4 ≤ bytes.length) :
    decode32 (peek (poke junk 0 (bytes.take 4)) 4) = announced bytes := by
  have hpeek := peek_poke junk (bytes.take 4)
  rw [List.length_take_of_le h4] at hpeek
  rw [hpeek]
  rfl

/-- A header that is all there: it is read, or there are too few reads for it. -/
theorem tcpRead_header (maxsize : UInt32) (bufs : Bufs) (junk fresh : Memory) {c : Conn}
    (h4 : 4 ≤ c.incoming.length) (ks : List Nat) :
    (∃ rest, Within 4 ks rest ∧ tcpRead maxsize bufs junk fresh c (ks.map .got) =
      (readn (announced c.incoming).toNat (bufs.target fresh maxsize (announced c.incoming))
        { c with incoming := c.incoming.drop 4 } (rest.map .got)).map fun b =>
          ⟨b.ret, bufs.filled maxsize (announced c.incoming) b.mem, b.conn, b.script⟩) ∨
    (tcpRead maxsize bufs junk fresh c (ks.map .got) = none ∧ ks.length < 4) := by
  rcases readn_spec (by decide : 0 < 4) (by decide) ks junk c h4 with
    ⟨rest, hwithin, hn⟩ | ⟨hnone, hshort⟩
  · have hfour : (Int32.ofNat 4).toUInt32 ≠ 0 := by decide
    have hbody := tcpRead_of_header maxsize bufs fresh hn hfour
    rw [decode32_header junk h4] at hbody
    exact .inl ⟨rest, hwithin, hbody⟩
  · refine .inr ⟨?_, hshort⟩
    simp only [tcpRead, hnone]

theorem announced_frame (p : Payload) (tail : Bytes) : announced (frame p ++ tail) = p.len := by
  have hhead : (frame p ++ tail).take 4 = encode32 p.len := by
    rw [frame, List.append_assoc]
    exact List.take_left' (length_encode32 _)
  rw [announced, hhead, decode32_encode32]

theorem drop_frame (p : Payload) (tail : Bytes) : (frame p ++ tail).drop 4 = p.bytes ++ tail := by
  rw [frame, List.append_assoc]
  exact List.drop_left' (length_encode32 _)

/-- **A frame is read back.** With a frame at the head of the stream `tcp_read` returns the length
of the message and puts its bytes in the selected buffer; the stream is left behind the frame. -/
theorem tcpRead_frame {p : Payload} (h0 : 0 < p.bytes.length) (maxsize : UInt32) (bufs : Bufs)
    (junk fresh : Memory) {c : Conn} {tail : Bytes} (hc : c.incoming = frame p ++ tail)
    (ks : List Nat) :
    (∃ r rest, Within (frame p).length ks rest ∧
      tcpRead maxsize bufs junk fresh c (ks.map .got) = some r ∧ r.ret = Int32.ofNat p.bytes.length ∧
      peek r.bufs.data p.bytes.length = p.bytes ∧
      r.bufs.useTempbuf = decide (¬ p.len ≤ maxsize) ∧
      r.conn = { c with incoming := tail } ∧ r.script = rest.map .got) ∨
    (tcpRead maxsize bufs junk fresh c (ks.map .got) = none ∧ ks.length < (frame p).length) := by
  have hfits := p.fits
  have h4 : 4 ≤ c.incoming.length := by
    rw [hc, List.length_append, length_frame]
    omega
  rw [length_frame, Nat.add_comm]
  rcases tcpRead_header maxsize bufs junk fresh h4 ks with ⟨mid, hmid, hbody⟩ | ⟨hnone, hshort⟩
  · rw [hc, announced_frame, drop_frame, Payload.toNat_len] at hbody
    rcases readn_spec h0 (by omega) mid (bufs.target fresh maxsize p.len)
        { c with incoming := p.bytes ++ tail } (by simp) with ⟨rest, hwithin, hb⟩ | ⟨hnone, hshort⟩
    · rw [hb, Option.map_some] at hbody
      refine .inl ⟨_, rest, hmid.trans hwithin, hbody, rfl, ?_, ?_, ?_, rfl⟩
      · rw [Bufs.data_filled, List.take_left]
        exact peek_poke _ _
      · exact bufs.useTempbuf_filled _ _ _
      · rw [List.drop_left]
    · refine .inr ⟨?_, ?_⟩
      · rw [hbody, hnone, Option.map_none]
      · have hcalls := hmid.length_le
        omega
  · exact .inr ⟨hnone, by omega⟩

/-! ## The encoders -/

/-- A `write` of enough bytes puts between one and `len` of them. -/
theorem write_put {buff : Bytes} {len : Nat} (k : Nat) (h0 : 0 < len) (h : len ≤ buff.length) :
    ∃ n, 0 < n ∧ n ≤ len ∧ n < 2 ^ 31 ∧ write buff len (.put k) = ((n : Int), buff.take n) := by
  refine ⟨min (min (k + 1) rwMax) len, ?_, ?_, ?_, ?_⟩
  · unfold rwMax
    omega
  · omega
  · unfold rwMax
    omega
  · have hlen : (buff.take (min (min (k + 1) rwMax) len)).length = min (min (k + 1) rwMax) len := by
      rw [List.length_take]
      omega
    simp only [write, List.take_take, hlen]

/-- The loop of `writen` puts the missing bytes, or waits for more calls. -/
theorem writenFrom_spec {buff : Bytes} {len : Nat} (hlen : len ≤ buff.length) :
    ∀ (ks : List Nat) {i : Nat} (out : Bytes), i ≤ len →
    (∃ rest, Within (len - i) ks rest ∧ writenFrom buff len i out (ks.map .put) =
      some ⟨Int32.ofNat len, out ++ (buff.drop i).take (len - i), rest.map .put⟩) ∨
    (writenFrom buff len i out (ks.map .put) = none ∧ ks.length < len - i) := by
  intro ks
  induction ks with
  | nil =>
      intro i out hle
      by_cases hlt : i < len
      · right
        refine ⟨?_, ?_⟩
        · simp [writenFrom, hlt]
        · simp only [List.length_nil]
          omega
      · have heq : i = len := by omega
        subst heq
        exact .inl ⟨[], Within.refl _ _, by simp [writenFrom]⟩
  | cons k ks ih =>
      intro i out hle
      by_cases hlt : i < len
      · have hav : len - i ≤ (buff.drop i).length := by
          rw [List.length_drop]
          omega
        obtain ⟨n, hn0, hnle, hn31, hwrite⟩ := write_put k (Nat.sub_pos_of_lt hlt) hav
        have hpos : ¬ Int32.ofNat n < 0 := ofNat_not_neg hn31
        have hstep : writenFrom buff len i out ((k :: ks).map .put) =
            writenFrom buff len (i + n) (out ++ (buff.drop i).take n) (ks.map .put) := by
          simp only [List.map_cons, writenFrom, if_pos hlt, hwrite, Int32.ofInt_eq_ofNat,
            if_neg hpos, Int32.toNatClampNeg_ofNat_of_lt hn31]
        have hcut : len - i = n + (len - (i + n)) := by omega
        rcases ih (out ++ (buff.drop i).take n) (by omega : i + n ≤ len) with
          ⟨rest, hwithin, hloop⟩ | ⟨hnone, hshort⟩
        · refine .inl ⟨rest, hwithin.cons (by omega), ?_⟩
          rw [hstep, hloop, List.append_assoc, ← List.drop_drop, ← List.take_add, ← hcut]
        · refine .inr ⟨hstep.trans hnone, ?_⟩
          rw [List.length_cons]
          omega
      · have heq : i = len := by omega
        subst heq
        exact .inl ⟨k :: ks, Within.refl _ _, by simp [writenFrom]⟩

/-- **`writen` writes exactly the first `len` bytes**, or waits for more calls. -/
theorem writen_spec {buff : Bytes} {len : Nat} (hlen : len ≤ buff.length) (ks : List Nat)
    (out : Bytes) :
    (∃ rest, Within len ks rest ∧ writen buff len out (ks.map .put) =
      some ⟨Int32.ofNat len, out ++ buff.take len, rest.map .put⟩) ∨
    (writen buff len out (ks.map .put) = none ∧ ks.length < len) :=
  writenFrom_spec hlen ks out (Nat.zero_le len)

/-- The two ways to send a message. -/
inductive Encoder
  | msgT
  | tcpWrite

/-- One message on its way out: a `msg_t` written by `writen` as `start_send` does it, or a call of
`tcp_write`. -/
def Encoder.emit (p : Payload) (out : Bytes) (script : List WriteOutcome) :
    Encoder → Option WriteRes
  | .msgT =>
      let m := MsgT.ofPayload .write p 0
      writen m.data m.len.toNat out script
  | .tcpWrite => Socket.tcpWrite p out script

/-- The length field of a `msg_t` is that of its frame exactly when the sum does not wrap. -/
theorem MsgT.toNat_len_ofPayload_iff (t : MsgType) (p : Payload) (s : Int) :
    (MsgT.ofPayload t p s).len.toNat = (frame p).length ↔ p.bytes.length < 2 ^ 32 - 4 := by
  have hfits := p.fits
  have hfour : (4 : UInt32).toNat = 4 := by decide
  rw [length_frame, MsgT.ofPayload, UInt32.toNat_add, Payload.toNat_len, hfour]
  omega

/-- **Both encoders emit the frame**, whatever way the writes split it. -/
theorem Encoder.emit_spec {p : Payload} (h : p.bytes.length < 2 ^ 32 - 4) (e : Encoder)
    (ks : List Nat) (out : Bytes) :
    (∃ r rest, Within (frame p).length ks rest ∧ e.emit p out (ks.map .put) = some r ∧
      r.out = out ++ frame p ∧ r.script = rest.map .put) ∨
    (e.emit p out (ks.map .put) = none ∧ ks.length < (frame p).length) := by
  cases e with
  | msgT =>
      have hlen := (MsgT.toNat_len_ofPayload_iff .write p 0).mpr h
      have hdata : (MsgT.ofPayload .write p 0).data = frame p := rfl
      simp only [emit, hlen, hdata]
      rcases writen_spec (Nat.le_refl (frame p).length) ks out with
        ⟨rest, hwithin, hn⟩ | ⟨hnone, hshort⟩
      · refine .inl ⟨_, rest, hwithin, hn, ?_, rfl⟩
        rw [List.take_length]
      · exact .inr ⟨hnone, hshort⟩
  | tcpWrite =>
      rw [length_frame, Nat.add_comm]
      have hbytes := Payload.toNat_len p
      rcases writen_spec (Nat.le_of_eq (length_encode32 p.len).symm) ks out with
        ⟨mid, hmid, hn⟩ | ⟨hnone, hshort⟩
      · have hsecond : Encoder.tcpWrite.emit p out (ks.map .put) =
            writen p.bytes p.bytes.length (out ++ encode32 p.len) (mid.map .put) := by
          show Socket.tcpWrite p out (ks.map .put) = _
          rw [Socket.tcpWrite, hn, hbytes]
          rfl
        rcases writen_spec (Nat.le_refl p.bytes.length) mid (out ++ encode32 p.len) with
          ⟨rest, hwithin, hb⟩ | ⟨hnone, hshort⟩
        · refine .inl ⟨_, rest, hmid.trans hwithin, hsecond.trans hb, ?_, rfl⟩
          rw [List.take_length, List.append_assoc, frame]
        · refine .inr ⟨hsecond.trans hnone, ?_⟩
          have hcalls := hmid.length_le
          omega
      · refine .inr ⟨?_, by omega⟩
        show Socket.tcpWrite p out (ks.map .put) = none
        rw [Socket.tcpWrite, hnone]

end CommTest.Socket
