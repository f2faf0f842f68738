import CommTest.Lib.Crc
import CommTest.Mpi.Packet

/-!
# What the CRC of a packet detects

`encappkt` and `msg_checkcrc` with a checksum of which the code knows that it is a CRC-32: the class
`boost::crc_32_type` is taken as the parameter `crc` with its documented behaviour, `IsCrc32`. The
checksum covers the first `CRCMSGSIZE` bytes and lies in the last four; the four bytes between them
are covered by nothing.

* `IsCrc32.eq_run`: the checksum is the register of `Crc.run` over the bits of the bytes;
  `isCrc32_generateCrc32` is an instance that takes a byte at a time.
* `Packet.flip p lo e` is the packet with the bits of `e` flipped from bit `lo` on: a burst of up to
  32 bits.
* `msgCheckcrc_flip_iff`: a packet that passed the check passes it after a burst exactly when the
  burst did not leave the four bytes that nothing covers.
-/

set_option linter.unusedSectionVars false

namespace CommTest.Mpi

open Mem

/-! ## The checksum as a register -/

/-- The bits of a byte, the low one first. -/
def byteBits (b : UInt8) : List Bool := (List.range 8).map b.toBitVec.getLsbD

@[simp] theorem length_byteBits (b : UInt8) : (byteBits b).length = 8 := by simp [byteBits]

/-- The documented behaviour of `boost::crc_32_type`: it is
`crc_optimal<32, 0x04C11DB7, 0xFFFFFFFF, 0xFFFFFFFF, true, true>`, the CRC of 32 bits with this
polynomial, initial remainder and final word that takes the low bit of a byte first and reflects the
remainder. -/
def IsCrc32 (crc : List UInt8 → UInt32) : Prop :=
  ∀ buf, (crc buf).toBitVec =
    Crc.reflected 0x04C11DB7#32 0xFFFFFFFF#32 0xFFFFFFFF#32 (buf.flatMap byteBits)

/-- The polynomial of the CRC-32 from the other end. -/
def crc32Poly : BitVec 32 := 0xEDB88320#32

theorem reverse_crc32Poly : (0x04C11DB7#32).reverse = crc32Poly := by decide +kernel

theorem reverse_crc32Init : (0xFFFFFFFF#32).reverse = 0xFFFFFFFF#32 := by decide +kernel

theorem getLsbD_crc32Poly : crc32Poly.getLsbD (32 - 1) = true := by decide

/-- **The checksum is the register after the bits of the bytes**, up to a constant. -/
theorem IsCrc32.eq_run {crc : List UInt8 → UInt32} (hdoc : IsCrc32 crc) (buf : List UInt8) :
    (crc buf).toBitVec =
      Crc.run crc32Poly 0xFFFFFFFF#32 (buf.flatMap byteBits) ^^^ 0xFFFFFFFF#32 := by
  rw [hdoc buf, Crc.reflected_eq, reverse_crc32Poly, reverse_crc32Init]

/-! ### A byte at a time -/

theorem toBitVec_crc32Bit (c : UInt32) :
    (crc32Bit c).toBitVec = Crc.shift crc32Poly c.toBitVec := by
  have hlow : (c &&& 1 = 1) ↔ c.toBitVec.getLsbD 0 = true := by
    have hand : (c &&& 1).toBitVec = BitVec.setWidth 32 (BitVec.ofBool (c.toBitVec.getLsbD 0)) := by
      rw [UInt32.toBitVec_and]
      exact BitVec.and_one_eq_setWidth_ofBool_getLsbD
    rw [← UInt32.toBitVec_inj, hand]
    cases c.toBitVec.getLsbD 0 <;> decide
  unfold crc32Bit Crc.shift
  by_cases h : c &&& 1 = 1
  · rw [if_pos h, if_pos (hlow.mp h)]
    rfl
  · rw [if_neg h, if_neg (mt hlow.mpr h)]
    rfl

theorem toBitVec_iterate_crc32Bit (n : Nat) (c : UInt32) :
    (crc32Bit^[n] c).toBitVec = (Crc.shift crc32Poly)^[n] c.toBitVec := by
  induction n generalizing c with
  | zero => rfl
  | succ n ih => rw [Function.iterate_succ_apply, Function.iterate_succ_apply, ih, toBitVec_crc32Bit]

theorem word_byteBits (b : UInt8) : (Crc.word (byteBits b) : BitVec 32) = b.toUInt32.toBitVec := by
  apply BitVec.eq_of_getLsbD_eq
  intro i hi
  rw [Crc.getLsbD_word, decide_eq_true hi, Bool.true_and, List.getD_eq_getElem?_getD, byteBits]
  by_cases h8 : i < 8
  · simp [h8, hi]
  · have hbit : b.toBitVec.getLsbD i = false := BitVec.getLsbD_of_ge _ _ (by omega)
    simp [h8, hbit]

/-- A byte at a time is the same as its bits one by one. -/
theorem toBitVec_crc32Byte (c : UInt32) (b : UInt8) :
    (crc32Bit^[8] (c ^^^ b.toUInt32)).toBitVec = Crc.run crc32Poly c.toBitVec (byteBits b) := by
  have hfit : (byteBits b).length ≤ 32 := by simp
  rw [toBitVec_iterate_crc32Bit, Crc.run_eq_iterate crc32Poly hfit, word_byteBits, length_byteBits,
    UInt32.toBitVec_xor]

theorem toBitVec_foldl (buf : List UInt8) (c : UInt32) :
    (buf.foldl (fun c b => crc32Bit^[8] (c ^^^ b.toUInt32)) c).toBitVec =
      Crc.run crc32Poly c.toBitVec (buf.flatMap byteBits) := by
  induction buf generalizing c with
  | nil => rfl
  | cons b buf ih => rw [List.foldl_cons, ih, List.flatMap_cons, Crc.run_append, toBitVec_crc32Byte]

/-- The bits of a byte can be taken together. -/
theorem isCrc32_generateCrc32 : IsCrc32 generateCrc32 := by
  intro buf
  rw [Crc.reflected_eq, reverse_crc32Poly, reverse_crc32Init, generateCrc32, UInt32.toBitVec_xor,
    toBitVec_foldl]
  rfl

/-! ## The bits of a packet -/

namespace Packet

/-- Bit `k` of the packet, the low bit of a byte first. -/
def bitAt (p : Packet) (k : Nat) : Bool := (p (k / 8)).toBitVec.getLsbD (k % 8)

/-- The bits of `e` flipped from bit `lo` on. -/
def flip (p : Packet) (lo : Nat) (e : BitVec 32) : Packet :=
  fun i => p i ^^^ UInt8.ofNat (e.toNat * 2 ^ lo / 2 ^ (8 * i))

/-- The first `8 * n` bits. -/
theorem flatMap_byteBits_peek (p : Packet) (n : Nat) :
    (peek p n).flatMap byteBits = (List.range (8 * n)).map p.bitAt := by
  induction n with
  | zero => rfl
  | succ n ih =>
      have hpeek : peek p (n + 1) = peek p n ++ [p n] := by simp [peek, List.range_succ]
      rw [hpeek, List.flatMap_append, ih, Nat.mul_succ, List.range_add, List.map_append]
      congr 1
      rw [List.flatMap_singleton, byteBits, List.map_map]
      apply List.map_congr_left
      intro i hi
      have hi8 : i < 8 := List.mem_range.mp hi
      have hdiv : (8 * n + i) / 8 = n := by omega
      have hmod : (8 * n + i) % 8 = i := by omega
      simp [bitAt, hdiv, hmod]

theorem eq_iff_bitAt (p q : Packet) (i : Nat) :
    p i = q i ↔ ∀ b < 8, p.bitAt (8 * i + b) = q.bitAt (8 * i + b) := by
  have hdiv : ∀ b < 8, (8 * i + b) / 8 = i := fun b hb => by omega
  have hmod : ∀ b < 8, (8 * i + b) % 8 = b := fun b hb => by omega
  constructor
  · intro h b hb
    rw [bitAt, bitAt, hdiv b hb, h]
  · intro h
    rw [← UInt8.toBitVec_inj]
    apply BitVec.eq_of_getLsbD_eq
    intro b hb
    have hbit := h b hb
    rwa [bitAt, bitAt, hdiv b hb, hmod b hb] at hbit

/-- A flipped packet differs in the bits of the burst. -/
theorem bitAt_flip (p : Packet) (lo : Nat) (e : BitVec 32) (k : Nat) :
    (p.flip lo e).bitAt k = (p.bitAt k ^^ (decide (lo ≤ k) && e.getLsbD (k - lo))) := by
  have hk : 8 * (k / 8) + k % 8 = k := Nat.div_add_mod k 8
  have hk8 : k % 8 < 8 := Nat.mod_lt _ (by decide)
  have hpat : (UInt8.ofNat (e.toNat * 2 ^ lo / 2 ^ (8 * (k / 8)))).toBitVec.getLsbD (k % 8) =
      (decide (lo ≤ k) && e.getLsbD (k - lo)) := by
    rw [UInt8.toBitVec_ofNat', BitVec.getLsbD_ofNat, decide_eq_true hk8, Bool.true_and,
      Nat.testBit_div_two_pow, Nat.add_comm, hk, Nat.testBit_mul_two_pow]
    rfl
  rw [bitAt, flip, UInt8.toBitVec_xor, BitVec.getLsbD_xor, hpat]
  rfl

/-- Outside of the burst nothing changes. -/
theorem bitAt_flip_of_outside (p : Packet) {lo : Nat} (e : BitVec 32) {k : Nat}
    (h : k < lo ∨ lo + 32 ≤ k) : (p.flip lo e).bitAt k = p.bitAt k := by
  rw [bitAt_flip]
  rcases h with h | h
  · simp [Nat.not_le.mpr h]
  · rw [BitVec.getLsbD_of_ge e _ (by omega)]
    simp

end Packet

/-! ## Bursts -/

/-- The bytes of the packet that differ after the burst are all among the four that nothing covers.
-/
def Harmless (p : Packet) (lo : Nat) (e : BitVec 32) : Prop :=
  ∀ i < msgsize, p.flip lo e i ≠ p i → crcmsgsize ≤ i ∧ i < crcpos

section

variable {crc : List UInt8 → UInt32}

/-- **A burst in the bytes that are covered changes the checksum.** -/
theorem IsCrc32.flip_ne (hdoc : IsCrc32 crc) {p : Packet} {lo : Nat} {e : BitVec 32} {i : Nat}
    (hi : i < crcmsgsize) (hne : p.flip lo e i ≠ p i) :
    crc (peek (p.flip lo e) crcmsgsize) ≠ crc (peek p crcmsgsize) := by
  have hbit : ∃ k < 8 * crcmsgsize, (p.flip lo e).bitAt k ≠ p.bitAt k := by
    by_contra hall
    push Not at hall
    exact hne ((Packet.eq_iff_bitAt _ p i).mpr fun b hb => hall (8 * i + b) (by omega))
  have hrun := Crc.run_range_ne getLsbD_crc32Poly 0xFFFFFFFF#32
    (fun k _ hout => p.bitAt_flip_of_outside e hout) hbit
  intro h
  rw [← UInt32.toBitVec_inj, hdoc.eq_run, hdoc.eq_run, BitVec.xor_left_inj,
    Packet.flatMap_byteBits_peek, Packet.flatMap_byteBits_peek] at h
  exact hrun h

/-- A burst that reaches the covered bytes does not reach the checksum. -/
theorem flip_checksum {p : Packet} {lo : Nat} {e : BitVec 32} {i : Nat} (hi : i < crcmsgsize)
    (hne : p.flip lo e i ≠ p i) {j : Nat} (hj : crcpos ≤ j) : p.flip lo e j = p j := by
  have hgap : 8 * crcmsgsize + 32 = 8 * crcpos := by decide
  obtain ⟨b, hb, hbit⟩ : ∃ b < 8, (p.flip lo e).bitAt (8 * i + b) ≠ p.bitAt (8 * i + b) := by
    by_contra hall
    push Not at hall
    exact hne ((Packet.eq_iff_bitAt _ p i).mpr hall)
  have hlo : lo ≤ 8 * i + b := by
    by_contra hlt
    exact hbit (p.bitAt_flip_of_outside e (by omega))
  apply (Packet.eq_iff_bitAt _ p j).mpr
  intro b' _
  exact p.bitAt_flip_of_outside e (by omega)

/-- A burst that leaves the covered bytes alone leaves what the checksum is compared with. -/
theorem peek_flip {p : Packet} {lo : Nat} {e : BitVec 32}
    (hcov : ∀ i < crcmsgsize, p.flip lo e i = p i) :
    peek (p.flip lo e) crcmsgsize = peek p crcmsgsize :=
  List.map_congr_left fun i hi => hcov i (List.mem_range.mp hi)

/-- A burst that passes the check touched nothing that is covered, and not the checksum. -/
theorem harmless_of_msgCheckcrc_flip (hdoc : IsCrc32 crc) {p : Packet}
    (hp : msgCheckcrc crc p = true) {lo : Nat} {e : BitVec 32}
    (hflip : msgCheckcrc crc (p.flip lo e) = true) : Harmless p lo e := by
  have hsize : crcpos + 4 = msgsize := by decide
  unfold msgCheckcrc at hp hflip
  rw [beq_iff_eq] at hp hflip
  have hcov : ∀ i < crcmsgsize, p.flip lo e i = p i := by
    intro i hi
    by_contra hne
    have hsum : load32 (p.flip lo e) crcpos = load32 p crcpos :=
      (load32_eq_iff _ _ _).mpr fun k _ => flip_checksum hi hne (Nat.le_add_right _ _)
    rw [hsum, hp] at hflip
    exact hdoc.flip_ne hi hne hflip.symm
  rw [peek_flip hcov, ← hp, load32_eq_iff] at hflip
  intro i hi hne
  refine ⟨?_, ?_⟩
  · by_contra hlt
    exact hne (hcov i (by omega))
  · by_contra hge
    have hbyte := hflip (i - crcpos) (by omega)
    rw [Nat.add_sub_cancel' (by omega)] at hbyte
    exact hne hbyte

/-- What nothing covers may change. -/
theorem msgCheckcrc_flip_of_harmless {p : Packet} (hp : msgCheckcrc crc p = true) {lo : Nat}
    {e : BitVec 32} (hharm : Harmless p lo e) : msgCheckcrc crc (p.flip lo e) = true := by
  have hle : crcmsgsize ≤ crcpos := crcmsgsize_le_crcpos
  have hsize : crcpos + 4 = msgsize := by decide
  have hcov : ∀ i < crcmsgsize, p.flip lo e i = p i := by
    intro i hi
    by_contra hne
    have hout := (hharm i (by omega) hne).1
    omega
  have hsum : load32 (p.flip lo e) crcpos = load32 p crcpos := by
    apply (load32_eq_iff _ _ _).mpr
    intro k hk
    by_contra hne
    have hout := (hharm (crcpos + k) (by omega) hne).2
    omega
  unfold msgCheckcrc at hp ⊢
  rwa [hsum, peek_flip hcov]

/-- **Bursts of up to 32 bits are detected**, except in the four bytes that nothing covers. -/
theorem msgCheckcrc_flip_iff (hdoc : IsCrc32 crc) (p : Packet) (hp : msgCheckcrc crc p = true)
    (lo : Nat) (e : BitVec 32) : msgCheckcrc crc (p.flip lo e) = true ↔ Harmless p lo e :=
  ⟨harmless_of_msgCheckcrc_flip hdoc hp, msgCheckcrc_flip_of_harmless hp⟩

end

/-- A burst that starts behind the covered bytes ends before the checksum. -/
theorem harmless_gap (p : Packet) (e : BitVec 32) : Harmless p (8 * crcmsgsize) e := by
  have hgap : 8 * crcmsgsize + 32 = 8 * crcpos := by decide
  intro i _ hne
  by_contra hout
  refine hne ((Packet.eq_iff_bitAt _ p i).mpr fun b hb => p.bitAt_flip_of_outside e ?_)
  omega

/-- The first bit of a heartbeat is covered, the one behind the covered bytes is not. -/
theorem msgCheckcrc_flip_heartbeat :
    msgCheckcrc generateCrc32 ((heartbeatPkt generateCrc32 1 2).flip 0 1) ≠ true ∧
      msgCheckcrc generateCrc32 ((heartbeatPkt generateCrc32 1 2).flip (8 * crcmsgsize) 1) = true := by
  have hp := msgCheckcrc_heartbeatPkt generateCrc32 1 2
  refine ⟨?_, (msgCheckcrc_flip_iff isCrc32_generateCrc32 _ hp _ 1).mpr (harmless_gap _ 1)⟩
  intro hcheck
  have hbit : (heartbeatPkt generateCrc32 1 2).flip 0 1 0 ≠ heartbeatPkt generateCrc32 1 2 0 := by
    intro h
    have hflip := (Packet.eq_iff_bitAt _ _ 0).mp h 0 (by decide)
    rw [Packet.bitAt_flip] at hflip
    simp at hflip
  have hout := ((msgCheckcrc_flip_iff isCrc32_generateCrc32 _ hp 0 1).mp hcheck 0 (by decide) hbit).1
  exact absurd hout (by decide)

end CommTest.Mpi
