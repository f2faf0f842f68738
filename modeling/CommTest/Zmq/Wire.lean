import Mathlib.Data.List.Basic
import Mathlib.Data.List.TakeWhile
import Mathlib.Data.Nat.Digits.Defs
import Mathlib.Tactic.NormNum
import Mathlib.Tactic.SplitIfs

/-!
# What travels: node ids, byte strings and the texts read back from them

* `ide2i` / `idi2e` are the macros `IDE2I` and `IDI2E`: a node or group id is shifted left by four
  with the low bit set before it goes on a socket, and shifted back (arithmetically) when it is
  handed to the application. `idi2e_ide2i` is the round trip on the ids that fit.
* `recvLen` is the `int` in which the comm thread keeps the length of what it received, and
  `forwarded` the part of a payload that it hands on. A payload of `2^31` bytes or more is cut short
  or ends the thread; `forwarded_eq_self_iff`.
* `commHandlerInit`, `commHandlerPubInit`, `commHandlerSubInit` are the three hello texts.
* `cstr data behind` is the C string that starts at a received buffer. The buffers carry no
  terminator of their own, so what follows the buffer in memory (`behind`) is an input.
* `IStream` and its extractions model `std::stringstream >> char` and `>> int32_t`, with which the
  subscription text and the announcement of a publisher are read.
-/

namespace CommTest.Zmq

/-- A byte string. -/
abbrev Bytes := List UInt8

/-- `cliid_t`. Source: `comm_handler.hpp`. -/
abbrev Cliid := Int32

/-! ## Ids -/

/-- External id to internal id: `(x << 4 | 0x1)`. Source: `comm_handler.hpp`, `IDE2I`. -/
def ide2i (x : Cliid) : Cliid := x <<< 4 ||| 1

/-- Internal id to external id: `(x >> 4)`, arithmetic. Source: `comm_handler.hpp`, `IDI2E`. -/
def idi2e (x : Cliid) : Cliid := x >>> 4

/-- The external ids that survive the shift: `[0, 2^27)`. -/
def ExtId (x : Cliid) : Prop := 0 ≤ x ∧ x < 134217728

instance (x : Cliid) : Decidable (ExtId x) := inferInstanceAs (Decidable (_ ∧ _))

theorem toBitVec_ide2i (x : Cliid) : (ide2i x).toBitVec = x.toBitVec <<< 4 ||| 1#32 := by
  rw [ide2i, Int32.toBitVec_or, Int32.toBitVec_shiftLeft]
  rfl

theorem toBitVec_idi2e (x : Cliid) : (idi2e x).toBitVec = x.toBitVec.sshiftRight 4 := by
  rw [idi2e, Int32.toBitVec_shiftRight]
  rfl

/-- The bits of an internal id: the low nibble is `0001`, the rest is the external id. -/
theorem getLsbD_ide2i (x : Cliid) {i : Nat} (hi : i < 32) :
    (ide2i x).toBitVec.getLsbD i = if i < 4 then decide (i = 0) else x.toBitVec.getLsbD (i - 4) := by
  rw [toBitVec_ide2i, BitVec.getLsbD_or, BitVec.getLsbD_shiftLeft]
  by_cases h4 : i < 4
  · have : i = 0 ∨ i = 1 ∨ i = 2 ∨ i = 3 := by omega
    rcases this with rfl | rfl | rfl | rfl <;> simp
  · have h0 : i ≠ 0 := by omega
    simp [h4, hi, h0]

/-- The bits of an external id read off an internal one. -/
theorem getLsbD_idi2e (x : Cliid) {i : Nat} (hi : i < 28) :
    (idi2e x).toBitVec.getLsbD i = x.toBitVec.getLsbD (4 + i) := by
  have h1 : 4 + i < 32 := by omega
  have h2 : ¬ 32 ≤ i := by omega
  rw [toBitVec_idi2e, BitVec.getLsbD_sshiftRight, if_pos h1, decide_eq_false h2, Bool.not_false,
    Bool.true_and]

/-- The bits of an id in range vanish from bit 27 on. -/
theorem ExtId.getLsbD_eq_false {x : Cliid} (hx : ExtId x) {i : Nat} (hi : 27 ≤ i) :
    x.toBitVec.getLsbD i = false := by
  obtain ⟨h0, h1⟩ := hx
  rw [Int32.le_iff_toInt_le] at h0
  rw [Int32.lt_iff_toInt_lt] at h1
  have hz : (0 : Int32).toInt = 0 := by decide
  have ht : (134217728 : Int32).toInt = 134217728 := by decide
  have hnat : x.toBitVec.toNat < 2 ^ 27 := by
    have hx32 : x.toBitVec.toNat < 2 ^ 32 := x.toBitVec.isLt
    have hint : x.toInt = x.toBitVec.toInt := rfl
    rw [BitVec.toInt_eq_toNat_cond] at hint
    split_ifs at hint <;> omega
  rw [← BitVec.testBit_toNat]
  exact Nat.testBit_lt_two_pow
    (lt_of_lt_of_le hnat (Nat.pow_le_pow_right (by norm_num) hi))

/-- **The id round trip.** An external id in `[0, 2^27)` is recovered exactly. -/
theorem idi2e_ide2i {x : Cliid} (hx : ExtId x) : idi2e (ide2i x) = x := by
  apply Int32.toBitVec_inj.mp
  apply BitVec.eq_of_getLsbD_eq
  intro i hi
  by_cases h28 : i < 28
  · have h4 : ¬ 4 + i < 4 := by omega
    rw [getLsbD_idi2e _ h28, getLsbD_ide2i _ (by omega), if_neg h4, Nat.add_sub_cancel_left]
  · -- above bit 27 both sides are copies of a sign bit, and the sign bit of `x << 4` is bit 27 of `x`
    have h1 : ¬ 4 + i < 32 := by omega
    rw [toBitVec_idi2e, BitVec.getLsbD_sshiftRight, if_neg h1, BitVec.msb_eq_getLsbD_last,
      getLsbD_ide2i _ (by omega), hx.getLsbD_eq_false (i := i) (by omega)]
    simp only [Nat.reduceSub, Nat.reduceLT, if_false, hx.getLsbD_eq_false (i := 27) le_rfl,
      Bool.and_false]

/-- The internal id of a node in range is not negative, so `recv` takes its translating branch. -/
theorem ide2i_nonneg {x : Cliid} (hx : ExtId x) : 0 ≤ ide2i x := by
  have hmsb : (ide2i x).toBitVec.msb = false := by
    rw [BitVec.msb_eq_getLsbD_last, getLsbD_ide2i _ (by omega)]
    simpa using hx.getLsbD_eq_false (i := 27) le_rfl
  rw [Int32.le_iff_toInt_le]
  have hint : (ide2i x).toInt = (ide2i x).toBitVec.toInt := rfl
  have hz : (0 : Int32).toInt = 0 := by decide
  rw [BitVec.toInt_eq_msb_cond, hmsb] at hint
  simp only [Bool.false_eq_true, if_false] at hint
  omega

/-- Two nodes in range with one internal id are one node. -/
theorem ide2i_injOn {x y : Cliid} (hx : ExtId x) (hy : ExtId y) (h : ide2i x = ide2i y) : x = y := by
  rw [← idi2e_ide2i hx, h, idi2e_ide2i hy]

/-- Internal ids, whatever the external id was, are told apart by their external reading: the low
nibble is constant and the shift keeps the other 28 bits. -/
theorem ide2i_eq_of_idi2e_eq {x y : Cliid} (h : idi2e (ide2i x) = idi2e (ide2i y)) :
    ide2i x = ide2i y := by
  apply Int32.toBitVec_inj.mp
  apply BitVec.eq_of_getLsbD_eq
  intro i hi
  by_cases h4 : i < 4
  · rw [getLsbD_ide2i _ hi, getLsbD_ide2i _ hi, if_pos h4, if_pos h4]
  · have hbit := congrArg (fun c : Cliid => c.toBitVec.getLsbD (i - 4)) h
    rw [getLsbD_idi2e _ (by omega), getLsbD_idi2e _ (by omega)] at hbit
    have hi4 : 4 + (i - 4) = i := by omega
    rwa [hi4] at hbit

/-! ## The length of a received buffer -/

/-- `int len = recv_msg(...)`: the `size_t` of the message, converted to `int`. Source:
`zmq_util.cpp`, `recv_msg`. -/
def recvLen (data : Bytes) : Int32 := Int32.ofNat data.length

/-- The first `len` bytes of a received buffer: what a block sends on. -/
def forwarded (data : Bytes) : Bytes := data.take (recvLen data).toNatClampNeg

/-- The payload is not cut short: its length fits in the `int`, or is negative there, and then
nothing of it is sent on. -/
def Whole (data : Bytes) : Prop := recvLen data < 0 ∨ data.length < 2 ^ 31

instance (data : Bytes) : Decidable (Whole data) := inferInstanceAs (Decidable (_ ∨ _))

theorem toInt_recvLen (data : Bytes) : (recvLen data).toInt = (data.length : Int).bmod (2 ^ 32) :=
  Int32.toInt_ofNat

theorem recvLen_neg_iff {data : Bytes} : recvLen data < 0 ↔ (recvLen data).toInt < 0 :=
  Int32.lt_iff_toInt_lt

/-- The `int` of a length is the length or less. -/
theorem toNatClampNeg_recvLen_le (data : Bytes) : (recvLen data).toNatClampNeg ≤ data.length := by
  show (recvLen data).toInt.toNat ≤ data.length
  rw [toInt_recvLen, Int.bmod_def]
  split_ifs <;> omega

theorem length_forwarded (data : Bytes) : (forwarded data).length = (recvLen data).toNatClampNeg := by
  rw [forwarded, List.length_take, Nat.min_eq_left (toNatClampNeg_recvLen_le data)]

/-- What is sent on has a length that fits in an `int`. -/
theorem length_forwarded_lt (data : Bytes) : (forwarded data).length < 2 ^ 31 := by
  have hlt := (recvLen data).toInt_lt
  rw [length_forwarded]
  show (recvLen data).toInt.toNat < 2 ^ 31
  omega

theorem toInt_recvLen_of_lt {data : Bytes} (h : data.length < 2 ^ 31) :
    (recvLen data).toInt = data.length := Int32.toInt_ofNat_of_lt h

theorem recvLen_nonneg_of_lt {data : Bytes} (h : data.length < 2 ^ 31) : ¬ recvLen data < 0 := by
  rw [recvLen_neg_iff, toInt_recvLen_of_lt h]
  exact Int.not_lt.mpr (Int.natCast_nonneg _)

theorem forwarded_of_lt {data : Bytes} (h : data.length < 2 ^ 31) : forwarded data = data := by
  apply List.take_of_length_le
  show data.length ≤ (recvLen data).toInt.toNat
  rw [toInt_recvLen_of_lt h, Int.toNat_natCast]

/-- **A payload is sent on as it is exactly when its length fits in an `int`.** -/
theorem forwarded_eq_self_iff {data : Bytes} : forwarded data = data ↔ data.length < 2 ^ 31 := by
  refine ⟨fun h => ?_, forwarded_of_lt⟩
  rw [← h]
  exact length_forwarded_lt data

/-- A whole payload that is sent on is sent on as it is. -/
theorem Whole.forwarded {data : Bytes} (h : Whole data) (hlen : ¬ recvLen data < 0) :
    forwarded data = data := forwarded_of_lt (h.resolve_left hlen)

/-! ## The hello texts -/

/-- The bytes of an ASCII literal. -/
def ascii (s : String) : Bytes := s.toList.map fun c => c.toNat.toUInt8

/-- `COMM_HANDLER_INIT` with its terminator, as `start_handler` sends it. -/
def commHandlerInit : Bytes := ascii "comm_handler_hello" ++ [0]

/-- `COMM_HANDLER_PUB_INIT`, without a terminator: it is the head of an announcement. -/
def commHandlerPubInit : Bytes := ascii "pub_hello"

/-- `COMM_HANDLER_SUB_INIT` with its terminator: ten bytes. -/
def commHandlerSubInit : Bytes := ascii "sub_hello" ++ [0]

theorem commHandlerInit_ne_commHandlerSubInit : commHandlerInit ≠ commHandlerSubInit := by decide

theorem length_commHandlerInit_lt : commHandlerInit.length < 2 ^ 31 := by decide

theorem length_commHandlerSubInit_lt : commHandlerSubInit.length < 2 ^ 31 := by decide

/-- The test of the router block for a `sub_hello`: `len` is ten, and the ten bytes agree. -/
def IsSubInit (data : Bytes) : Prop :=
  recvLen data = Int32.ofNat commHandlerSubInit.length ∧
    data.take commHandlerSubInit.length = commHandlerSubInit

instance (data : Bytes) : Decidable (IsSubInit data) := inferInstanceAs (Decidable (_ ∧ _))

/-- The test compares what would be sent on, not the payload. -/
theorem isSubInit_iff {data : Bytes} : IsSubInit data ↔ forwarded data = commHandlerSubInit := by
  have hten : (Int32.ofNat commHandlerSubInit.length).toNatClampNeg = commHandlerSubInit.length := by
    decide
  constructor
  · rintro ⟨hlen, htake⟩
    rw [forwarded, hlen, hten, htake]
  · intro h
    have hsize := length_forwarded data
    rw [h] at hsize
    have hlen : recvLen data = Int32.ofNat commHandlerSubInit.length := by
      rw [← Int32.toInt_inj]
      have hnat : commHandlerSubInit.length = (recvLen data).toInt.toNat := hsize
      have hval : commHandlerSubInit.length = 10 := rfl
      have hint : (Int32.ofNat commHandlerSubInit.length).toInt = 10 := by decide
      omega
    refine ⟨hlen, ?_⟩
    rwa [forwarded, hlen, hten] at h

/-- `std::ostream << int32_t`. -/
def decimal (x : Cliid) : Bytes :=
  if x.toInt < 0 then ascii "-" ++ (Nat.toDigits 10 x.toInt.natAbs).map fun c => c.toNat.toUInt8
  else (Nat.toDigits 10 x.toInt.natAbs).map fun c => c.toNat.toUInt8

/-- The announcement of publisher `id`. Source: `comm_handler.cpp`, `init_pub`, `pubinit`. -/
def pubHello (id : Cliid) : Bytes := commHandlerPubInit ++ ascii "&" ++ decimal id ++ [0]

/-- `"tcp://" + ip + ":" + port`. Source: `comm_handler.cpp`, `connect_to`, `init_pub`. -/
def connstr (ip port : Bytes) : Bytes := ascii "tcp://" ++ ip ++ ascii ":" ++ port

/-- The part of the request text of `subscribe_to` that names the groups: `;id` for each of them. -/
def gidsText (pubids : List Cliid) : Bytes := pubids.flatMap fun i => ascii ";" ++ decimal i

/-- The request text of `subscribe_to`: the address (or nothing), `&`, then `;id` for each group.
The loop runs to `(int) pubids.size()`. Source: `comm_handler.cpp`, `subscribe_to`, `ss`. -/
def subText (ip port : Bytes) (pubids : List Cliid) : Bytes :=
  (if ip ≠ [] ∧ port ≠ [] then connstr ip port else []) ++ ascii "&" ++
    gidsText (pubids.take (Int32.ofNat pubids.length).toNatClampNeg)

/-! ## Reading texts back -/

/-- The C string that starts at a received buffer `data` followed in memory by `behind`. -/
def cstr (data behind : Bytes) : Bytes := (data ++ behind).takeWhile (· ≠ 0)

/-- `dstr.substr(0, dlim)` with `int dlim = dstr.find('&')`; without an `&` the cast of `npos` makes
it the whole text. -/
def beforeAmp (s : Bytes) : Bytes := s.takeWhile (· ≠ 38)

/-- `dstr.substr(dlim + 1)`; without an `&` it is the whole text again. -/
def afterAmp (s : Bytes) : Bytes :=
  match s.findIdx? (· = 38) with
  | some k => s.drop (k + 1)
  | none => s

/-- A `std::stringstream`: the characters not yet read and the two state bits the code depends on.
-/
structure IStream where
  rest : Bytes
  eof : Bool
  fail : Bool
  deriving DecidableEq

/-- `std::isspace` in the C locale. -/
def isSpace (c : UInt8) : Bool := c = 32 ∨ (9 ≤ c ∧ c ≤ 13)

/-- `ss >> temp` for a `char`: skip white space, then take one character; at the end of the text (or
on a stream that is not good) it fails. -/
def IStream.getChar (ss : IStream) : IStream :=
  if ss.eof ∨ ss.fail then { ss with fail := true }
  else
    match ss.rest.dropWhile isSpace with
    | [] => { rest := [], eof := true, fail := true }
    | _ :: cs => { ss with rest := cs }

/-- Value of a run of decimal digits. -/
def digitsVal (ds : Bytes) : Nat := ds.foldl (fun n d => 10 * n + (d.toNat - 48)) 0

/-- `ss >> gid` for an `int32_t` that holds `junk` before: skip white space, an optional sign, then
the digits. A stream that has nothing left leaves the variable alone; no digit stores 0, a value out
of range stores the nearest bound, and both set the fail bit. Reaching the end of the text sets the
eof bit. -/
def IStream.getInt (junk : Cliid) (ss : IStream) : IStream × Cliid :=
  if ss.eof ∨ ss.fail then ({ ss with fail := true }, junk)
  else
    match ss.rest.dropWhile isSpace with
    | [] => ({ rest := [], eof := true, fail := true }, junk)
    | c :: cs =>
        let neg := c = 45
        let body := if c = 45 ∨ c = 43 then cs else c :: cs
        let isDigit := fun d : UInt8 => 48 ≤ d ∧ d ≤ 57
        let ds := body.takeWhile isDigit
        let rest := body.dropWhile isDigit
        let v : Int := if neg then -(digitsVal ds : Int) else digitsVal ds
        if ds = [] then ({ rest := rest, eof := rest = [], fail := true }, 0)
        else if v < -2147483648 then
          ({ rest := rest, eof := rest = [], fail := true }, Int32.ofInt (-2147483648))
        else if 2147483647 < v then
          ({ rest := rest, eof := rest = [], fail := true }, Int32.ofInt 2147483647)
        else ({ rest := rest, eof := rest = [], fail := false }, Int32.ofInt v)

/-- The groups subscribed to by the `do { ss >> temp; ss >> gid; … } while(!ss.eof())` loop. Every
round of a stream that has not failed takes a character, so when the rounds run out the stream has
failed short of its end and the loop never ends (`none`). Source: `comm_handler.cpp`,
`start_handler`, `subpull` block. -/
def subGids (junk : Cliid) : Nat → IStream → Option (List Cliid)
  | 0, _ => none
  | n + 1, ss =>
      let r := (ss.getChar).getInt junk
      if r.1.eof then some [r.2] else (subGids junk n r.1).map (r.2 :: ·)

/-- The publisher named by an announcement text. Source: `comm_handler.cpp`, `start_handler`,
`sub_sock` block. -/
def pubId (junk : Cliid) (dstr : Bytes) : Cliid :=
  (IStream.getInt junk { rest := afterAmp dstr, eof := false, fail := false }).2

/-! ## An announcement names its publisher -/

/-- The bytes of a number without a sign. -/
def digitBytes (n : Nat) : Bytes := (Nat.toDigits 10 n).map fun c => c.toNat.toUInt8

theorem toNat_of_isDigit {c : Char} (h : c.isDigit = true) : 48 ≤ c.toNat ∧ c.toNat ≤ 57 := by
  simp only [Char.isDigit, Bool.and_eq_true, decide_eq_true_eq] at h
  exact h

/-- A digit as a byte has the value of the character. -/
theorem toNat_digitByte {n : Nat} {c : Char} (hc : c ∈ Nat.toDigits 10 n) :
    c.toNat.toUInt8.toNat = c.toNat ∧ 48 ≤ c.toNat ∧ c.toNat ≤ 57 := by
  have hdigit := toNat_of_isDigit (Nat.isDigit_of_mem_toDigits (by decide) (by decide) hc)
  refine ⟨?_, hdigit⟩
  exact Nat.mod_eq_of_lt (by omega)

theorem mem_digitBytes {n : Nat} {b : UInt8} (h : b ∈ digitBytes n) : 48 ≤ b ∧ b ≤ 57 := by
  obtain ⟨c, hc, rfl⟩ := List.mem_map.mp h
  obtain ⟨hval, h1, h2⟩ := toNat_digitByte hc
  rw [UInt8.le_iff_toNat_le, UInt8.le_iff_toNat_le, hval]
  exact ⟨h1, h2⟩

theorem digitBytes_ne_nil (n : Nat) : digitBytes n ≠ [] := by
  simp [digitBytes, Nat.toDigits_ne_nil]

/-- Reading the digits of a number gives the number. -/
theorem digitsVal_digitBytes (n : Nat) : digitsVal (digitBytes n) = n := by
  have hfold : digitsVal (digitBytes n) = Nat.ofDigitChars 10 (Nat.toDigits 10 n) 0 := by
    rw [digitsVal, digitBytes, List.foldl_map, Nat.ofDigitChars_eq_foldl]
    apply List.foldl_ext
    intro a c hc
    rw [(toNat_digitByte hc).1]
    rfl
  rw [hfold, Nat.ofDigitChars_ten_toDigits]

/-- What is written of an id: its digits, behind a minus sign when it is negative. -/
theorem decimal_eq (x : Cliid) :
    decimal x = if x.toInt < 0 then 45 :: digitBytes x.toInt.natAbs else digitBytes x.toInt.natAbs :=
  rfl

/-- No byte of a number is a terminator, an ampersand or white space. -/
theorem mem_decimal {x : Cliid} {b : UInt8} (h : b ∈ decimal x) : b = 45 ∨ 48 ≤ b ∧ b ≤ 57 := by
  rw [decimal_eq] at h
  split_ifs at h
  · rcases List.mem_cons.mp h with h | h
    · exact .inl h
    · exact .inr (mem_digitBytes h)
  · exact .inr (mem_digitBytes h)

/-- A text that does not go on with a digit. -/
def Stops (rest : Bytes) : Prop := ∀ b, rest.head? = some b → ¬ (48 ≤ b ∧ b ≤ 57)

theorem stops_nil : Stops [] := fun _ h => absurd h (by simp)

theorem takeWhile_digitBytes (n : Nat) {rest : Bytes} (hrest : Stops rest) :
    (digitBytes n ++ rest).takeWhile (fun d => decide (48 ≤ d ∧ d ≤ 57)) = digitBytes n := by
  have hstop : rest.takeWhile (fun d => decide (48 ≤ d ∧ d ≤ 57)) = [] := by
    cases rest with
    | nil => rfl
    | cons b rest => exact List.takeWhile_cons_of_neg (by simpa using hrest b rfl)
  rw [List.takeWhile_append_of_pos fun b hb => decide_eq_true (mem_digitBytes hb), hstop,
    List.append_nil]

theorem dropWhile_digitBytes (n : Nat) {rest : Bytes} (hrest : Stops rest) :
    (digitBytes n ++ rest).dropWhile (fun d => decide (48 ≤ d ∧ d ≤ 57)) = rest := by
  have hsplit := List.takeWhile_append_dropWhile (p := fun d : UInt8 => decide (48 ≤ d ∧ d ≤ 57))
    (l := digitBytes n ++ rest)
  rw [takeWhile_digitBytes n hrest] at hsplit
  exact List.append_cancel_left hsplit

/-- A digit is neither white space nor a sign. -/
theorem not_isSpace_of_digit {b : UInt8} (h : 48 ≤ b ∧ b ≤ 57) :
    isSpace b = false ∧ b ≠ 45 ∧ b ≠ 43 := by
  obtain ⟨h1, h2⟩ := h
  refine ⟨?_, ?_, ?_⟩
  · rw [UInt8.le_iff_toNat_le] at h1 h2
    simp only [isSpace, decide_eq_false_iff_not, not_or, not_and, UInt8.le_iff_toNat_le,
      ← UInt8.toNat_inj, UInt8.reduceToNat] at *
    omega
  · rintro rfl
    exact absurd h1 (by decide)
  · rintro rfl
    exact absurd h1 (by decide)

/-- **An id written into a text is read back**, up to what follows it. -/
theorem getInt_decimal (junk x : Cliid) {rest : Bytes} (hrest : Stops rest) :
    IStream.getInt junk { rest := decimal x ++ rest, eof := false, fail := false } =
      ({ rest := rest, eof := rest = [], fail := false }, x) := by
  have hlo : ¬ x.toInt < -2147483648 := not_lt.mpr x.le_toInt
  have hhi : ¬ 2147483647 < x.toInt := not_lt.mpr (Int.le_of_lt_add_one x.toInt_lt)
  have hval : Int32.ofInt x.toInt = x := Int32.ofInt_toInt x
  by_cases hneg : x.toInt < 0
  · have habs : (-(x.toInt.natAbs : Int)) = x.toInt := by omega
    have hdec : decimal x = 45 :: digitBytes x.toInt.natAbs := by rw [decimal_eq, if_pos hneg]
    have hspace : (45 :: (digitBytes x.toInt.natAbs ++ rest)).dropWhile isSpace =
        45 :: (digitBytes x.toInt.natAbs ++ rest) := List.dropWhile_cons_of_neg (by decide)
    simp only [IStream.getInt, hdec, List.cons_append, hspace, Bool.false_eq_true, or_self, if_false,
      true_or, if_true, takeWhile_digitBytes _ hrest, dropWhile_digitBytes _ hrest,
      digitBytes_ne_nil, digitsVal_digitBytes, habs, hlo, hhi, hval]
  · have habs : (x.toInt.natAbs : Int) = x.toInt := by omega
    have hdec : decimal x = digitBytes x.toInt.natAbs := by rw [decimal_eq, if_neg hneg]
    cases hd : digitBytes x.toInt.natAbs with
    | nil => exact absurd hd (digitBytes_ne_nil _)
    | cons c cs =>
        obtain ⟨hs, h45, h43⟩ := not_isSpace_of_digit (mem_digitBytes (hd ▸ List.mem_cons_self))
        have hspace : (c :: (cs ++ rest)).dropWhile isSpace = c :: (cs ++ rest) :=
          List.dropWhile_cons_of_neg (by simp [hs])
        simp only [IStream.getInt, hdec, hd, List.cons_append, hspace, Bool.false_eq_true, or_self,
          if_false, h45, h43]
        rw [← List.cons_append, ← hd]
        simp only [takeWhile_digitBytes _ hrest, dropWhile_digitBytes _ hrest, digitBytes_ne_nil,
          digitsVal_digitBytes, habs, hlo, hhi, if_false, hval]

/-- The C string of an announcement ends at its terminator, whatever lies behind it in memory. -/
theorem cstr_pubHello (pid : Cliid) (behind : Bytes) :
    cstr (pubHello pid) behind = commHandlerPubInit ++ 38 :: decimal pid := by
  have hsplit : pubHello pid ++ behind = (commHandlerPubInit ++ 38 :: decimal pid) ++ 0 :: behind := by
    simp [pubHello, ascii]
  have hno : ∀ b ∈ commHandlerPubInit ++ 38 :: decimal pid, decide (b ≠ 0) = true := by
    intro b hb
    rw [decide_eq_true_eq]
    rintro rfl
    rcases List.mem_append.mp hb with hb | hb
    · exact absurd hb (by decide)
    · rcases List.mem_cons.mp hb with hb | hb
      · cases hb
      · rcases mem_decimal hb with hb | hb
        · cases hb
        · exact absurd hb.1 (by decide)
  rw [cstr, hsplit, List.takeWhile_append_of_pos hno]
  simp

/-- An announcement is recognised whatever lies behind it in memory. -/
theorem pubHello_take (pid : Cliid) (behind : Bytes) :
    (pubHello pid ++ behind).take commHandlerPubInit.length = commHandlerPubInit := by
  unfold pubHello
  rw [List.append_assoc, List.append_assoc, List.append_assoc]
  exact List.take_left

/-- A sign and ten digits at most. -/
theorem length_decimal_le (x : Cliid) : (decimal x).length ≤ 11 := by
  have hlo := x.le_toInt
  have hhi := x.toInt_lt
  have hdigits : (Nat.toDigits 10 x.toInt.natAbs).length ≤ 10 :=
    Nat.toDigits_length 10 _ 10 (by decide) (by omega)
  unfold decimal
  split_ifs
  · simp [ascii]
    omega
  · simp
    omega

/-- An announcement is short, and is not cut. -/
theorem length_pubHello_lt (pid : Cliid) : (pubHello pid).length < 2 ^ 31 := by
  have hdecimal := length_decimal_le pid
  simp [pubHello, ascii, commHandlerPubInit]
  omega

/-- **An announcement names its publisher**: for every id, whatever the variable held before and
whatever follows the announcement in memory. -/
theorem pubId_pubHello (junk pid : Cliid) (behind : Bytes) :
    pubId junk (cstr (pubHello pid) behind) = pid := by
  have hafter : afterAmp (commHandlerPubInit ++ 38 :: decimal pid) = decimal pid := rfl
  have hread := getInt_decimal junk pid stops_nil
  rw [List.append_nil] at hread
  rw [pubId, cstr_pubHello, hafter, hread]

example : pubId 7 (cstr (pubHello 33) [1, 2]) = 33 ∧ pubId 7 (cstr (pubHello (-15)) []) = -15 := by
  decide

end CommTest.Zmq
