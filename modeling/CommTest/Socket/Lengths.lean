import CommTest.Socket.ReadErrors

/-!
# The lengths of a frame

A length is a `dsize_t` in the calls that send, a `size_t` in the loops, and an `int` in their
results. The constructor of `msg_t` adds the size of the header to it in 32 bits, and `tcp_read`
adds one to it, in 32 bits, for the buffer that it allocates.

* `MsgT.toNat_len_ofPayload_iff`, `Bufs.le_capacity_filled_iff`, `toInt_ofNat_eq_iff`: the lengths
  for which each of these is exact.
* `frame_lengths_iff`: all of them are for the messages shorter than `2^31` bytes, and for no
  others.
-/

set_option linter.unusedSectionVars false

namespace CommTest.Socket

open Mem

/-- How many bytes there are behind the selected buffer: the shared one has `maxsize`. -/
def Bufs.capacity (b : Bufs) (maxsize : UInt32) : Nat :=
  if b.useTempbuf then b.tempsize else maxsize.toNat

/-- The lengths on the way of a message: those of its `msg_t`, the room in the buffer it is received
in, and the result of the `tcp_read` that receives it. -/
structure LengthsExact (p : Payload) (m : MsgT) (maxsize : UInt32) (r : TcpReadRes) : Prop where
  len : m.len.toNat = p.bytes.length + 4
  data : m.data.length = p.bytes.length + 4
  capacity : p.bytes.length ≤ r.bufs.capacity maxsize
  ret : r.ret.toInt = p.bytes.length

/-! ## Where they wrap -/

theorem Bufs.capacity_filled (bufs : Bufs) (maxsize msglen : UInt32) (m : Memory) :
    (bufs.filled maxsize msglen m).capacity maxsize =
      if msglen ≤ maxsize then maxsize.toNat else (msglen + 1).toNat := by
  unfold Bufs.filled
  by_cases hle : msglen ≤ maxsize
  · rw [if_pos hle, if_pos hle]
    rfl
  · rw [if_neg hle, if_neg hle]
    rfl

/-- The selected buffer is large enough for every length but the largest. -/
theorem Bufs.le_capacity_filled_iff (bufs : Bufs) (maxsize msglen : UInt32) (m : Memory) :
    msglen.toNat ≤ (bufs.filled maxsize msglen m).capacity maxsize ↔
      msglen.toNat < 2 ^ 32 - 1 ∨ msglen ≤ maxsize := by
  have hone : (1 : UInt32).toNat = 1 := by decide
  have hsize := msglen.toNat_lt
  rw [Bufs.capacity_filled]
  by_cases hle : msglen ≤ maxsize
  · rw [if_pos hle]
    exact ⟨fun _ => .inr hle, fun _ => UInt32.le_iff_toNat_le.mp hle⟩
  · rw [if_neg hle, UInt32.toNat_add, hone, or_iff_left hle]
    omega

/-- A length is an `int` when its highest bit is not set. -/
theorem toInt_ofNat_eq_iff {n : Nat} (h : n < 2 ^ 32) : (Int32.ofNat n).toInt = n ↔ n < 2 ^ 31 := by
  constructor
  · intro heq
    by_contra hbig
    have hneg := (ofNat_neg_iff h).mpr (Nat.not_lt.mp hbig)
    rw [Int32.lt_iff_toInt_lt, heq] at hneg
    exact absurd hneg (Int.not_lt.mpr (Int.natCast_nonneg n))
  · exact Int32.toInt_ofNat_of_lt

/-! ## A complete frame -/

section

variable (p : Payload) (maxsize : UInt32) (bufs : Bufs) (junk fresh : Memory) {c : Conn}
  {tail : Bytes}

/-- The result and the buffers of a `tcp_read` with a frame to come. -/
theorem tcpRead_whole (hc : c.incoming = frame p ++ tail) (ks : List Nat) :
    (∃ r m, tcpRead maxsize bufs junk fresh c (ks.map .got) = some r ∧
      r.ret = Int32.ofNat p.bytes.length ∧ r.bufs = bufs.filled maxsize p.len m) ∨
    (tcpRead maxsize bufs junk fresh c (ks.map .got) = none ∧ ks.length ≤ (frame p).length) := by
  have hfits := p.fits
  have hframe := length_frame p
  have h4 : 4 ≤ c.incoming.length := by
    rw [hc, List.length_append]
    omega
  rcases tcpRead_header maxsize bufs junk fresh h4 ks with ⟨rest, hwithin, hbody⟩ | ⟨hnone, hshort⟩
  · rw [hc, announced_frame, drop_frame, Payload.toNat_len] at hbody
    rcases readn_whole (by omega) rest (bufs.target fresh maxsize p.len)
        (c := { c with incoming := p.bytes ++ tail }) (by simp : p.bytes.length ≤ _) with
      ⟨b, hb, hret⟩ | ⟨hnone, hshort⟩
    · rw [hb, Option.map_some] at hbody
      exact .inl ⟨_, b.mem, hbody, hret, rfl⟩
    · refine .inr ⟨?_, ?_⟩
      · rw [hbody, hnone, Option.map_none]
      · have hcalls := hwithin.length_le
        omega
  · exact .inr ⟨hnone, by omega⟩

/-- **When the lengths of a frame are exact**: for every message that can be sent, every `maxsize`
and every way its frame is cut into reads, `tcp_read` returns, and all the lengths are exact if and
only if the message is shorter than `2^31` bytes. One by one: the length of the `msg_t` is exact
below `2^32 - 4`, its bytes always are, the buffer is large enough below `2^32 - 1` or when the
shared one is used, and the result is the length below `2^31`. -/
theorem frame_lengths_iff (t : MsgType) (s : Int) (hc : c.incoming = frame p ++ tail) :
    (∀ ks : List Nat, (frame p).length < ks.length →
      ∃ r, tcpRead maxsize bufs junk fresh c (ks.map .got) = some r) ∧
    ∀ (ks : List Nat) (r : TcpReadRes), tcpRead maxsize bufs junk fresh c (ks.map .got) = some r →
      (LengthsExact p (MsgT.ofPayload t p s) maxsize r ↔ p.bytes.length < 2 ^ 31) ∧
      ((MsgT.ofPayload t p s).len.toNat = p.bytes.length + 4 ↔ p.bytes.length < 2 ^ 32 - 4) ∧
      (MsgT.ofPayload t p s).data.length = p.bytes.length + 4 ∧
      (p.bytes.length ≤ r.bufs.capacity maxsize ↔
        p.bytes.length < 2 ^ 32 - 1 ∨ p.len ≤ maxsize) ∧
      (r.ret.toInt = p.bytes.length ↔ p.bytes.length < 2 ^ 31) := by
  have hwhole := tcpRead_whole p maxsize bufs junk fresh hc
  refine ⟨fun ks hks => ?_, fun ks r hr => ?_⟩
  · rcases hwhole ks with ⟨r, -, hr, -⟩ | ⟨-, hshort⟩
    · exact ⟨r, hr⟩
    · omega
  · rcases hwhole ks with ⟨r', m, hr', hret, hbufs⟩ | ⟨hnone, -⟩
    · obtain rfl : r = r' := Option.some.inj (hr.symm.trans hr')
      have hlen := MsgT.toNat_len_ofPayload_iff t p s
      rw [length_frame] at hlen
      have hdata : (MsgT.ofPayload t p s).data.length = p.bytes.length + 4 := length_frame p
      have hcap := bufs.le_capacity_filled_iff maxsize p.len m
      rw [← hbufs, Payload.toNat_len] at hcap
      have hint := toInt_ofNat_eq_iff p.fits
      rw [← hret] at hint
      refine ⟨⟨fun hexact => hint.mp hexact.ret, fun hsmall => ?_⟩, hlen, hdata, hcap, hint⟩
      exact ⟨hlen.mpr (by omega), hdata, hcap.mpr (.inl (by omega)), hint.mpr hsmall⟩
    · rw [hnone] at hr
      cases hr

end

/-- A message of one byte. -/
theorem frame_lengths_one_byte :
    ∃ r, tcpRead 8 ⟨fun _ => 0, fun _ => 0, 0, false⟩ (fun _ => 0) (fun _ => 0)
        ⟨[1, 0, 0, 0, 9], false⟩ ([3, 0].map .got) = some r ∧
      (LengthsExact ⟨[9], by decide⟩ (MsgT.ofPayload .write ⟨[9], by decide⟩ 0) 8 r ↔
        ([9] : Bytes).length < 2 ^ 31) :=
  ⟨_, rfl, ((frame_lengths_iff ⟨[9], by decide⟩ 8 ⟨fun _ => 0, fun _ => 0, 0, false⟩ (fun _ => 0)
    (fun _ => 0) (c := ⟨[1, 0, 0, 0, 9], false⟩) .write 0
    (show [1, 0, 0, 0, 9] = frame ⟨[9], by decide⟩ ++ [] by decide)).2 [3, 0] _ rfl).1⟩

/-- A message of `n` zeros. -/
def Payload.zeros (n : Nat) (h : n < 2 ^ 32) : Payload where
  bytes := List.replicate n 0
  fits := by rw [List.length_replicate]; exact h

/-- The longest message: its `msg_t` is to be written with 3 bytes, the buffer for it has none, and
the result of the `tcp_read` that receives it is -1. -/
theorem frame_lengths_longest :
    ∃ r, tcpRead 8 ⟨fun _ => 0, fun _ => 0, 0, false⟩ (fun _ => 0) (fun _ => 0)
        ⟨frame (Payload.zeros (2 ^ 32 - 1) (by decide)), false⟩
        ((List.replicate (2 ^ 32 + 4) 0).map .got) = some r ∧
      (MsgT.ofPayload .write (Payload.zeros (2 ^ 32 - 1) (by decide)) 0).len = 3 ∧
      r.bufs.capacity 8 = 0 ∧ r.ret = -1 ∧
      ¬ LengthsExact (Payload.zeros (2 ^ 32 - 1) (by decide))
        (MsgT.ofPayload .write (Payload.zeros (2 ^ 32 - 1) (by decide)) 0) 8 r := by
  have hlen : (Payload.zeros (2 ^ 32 - 1) (by decide)).bytes.length = 2 ^ 32 - 1 :=
    List.length_replicate
  generalize Payload.zeros (2 ^ 32 - 1) (by decide) = p at hlen ⊢
  have hplen : p.len = 4294967295 := by
    rw [Payload.len, hlen]
    decide
  rcases tcpRead_whole p 8 ⟨fun _ => 0, fun _ => 0, 0, false⟩ (fun _ => 0) (fun _ => 0)
      (c := ⟨frame p, false⟩) (show frame p = frame p ++ [] from (List.append_nil _).symm)
      (List.replicate (2 ^ 32 + 4) 0) with
    ⟨r, m, hr, hret, hbufs⟩ | ⟨-, hshort⟩
  · have hcap : r.bufs.capacity 8 = 0 := by
      rw [hbufs, Bufs.capacity_filled, hplen]
      decide
    refine ⟨r, hr, ?_, hcap, ?_, fun hexact => ?_⟩
    · show p.len + 4 = 3
      rw [hplen]
      decide
    · rw [hret, hlen]
      decide
    · have hle := hexact.capacity
      omega
  · rw [length_frame, hlen, List.length_replicate] at hshort
    omega

end CommTest.Socket
