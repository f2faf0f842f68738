import CommTest.Lib.Mem
import Mathlib.Logic.Function.Iterate

/-!
# Packets of the MPI scheduler

A `packet` is `MSGSIZE` bytes. The `msg` in it starts at its first byte, and the CRC of its first
`CRCMSGSIZE` bytes lies in its last four.

* `encappkt` stores the CRC and `msgCheckcrc` compares it. Nothing below depends on which function
  of the bytes the CRC is, so it is a parameter `crc : List UInt8 → UInt32`, which stands for
  `generate_crc32` and the class `boost::crc_32_type` behind it. `generateCrc32` is an instance for
  concrete runs.
* `heartbeatPkt`, `taskPkt` and `replyPkt` are the packets of `sendheartbeat`, `server_sendtestmsg`
  and `client_sendtestmsg_wt_buffer`; `setDone` is what a worker does to a message.
* `msgCheckcrc_encappkt`: the CRC does not cover itself, so a packet passes the check after
  `encappkt` whatever it holds. A worker that changes the status breaks the CRC and `replyPkt` mends
  it.
* `seq_setDone`, `seq_replyPkt`: the sequence number of a task is the one of its acknowledgement.
-/

set_option linter.unusedSectionVars false

namespace CommTest.Mpi

open Mem

/-! ## Layout -/

/-- `MSGSIZE`. -/
def msgsize : Nat := 8192

/-- `CRCMSGSIZE`. -/
def crcmsgsize : Nat := msgsize - 8

/-- `CRCPOS`. -/
def crcpos : Nat := msgsize - 4

/-- The bytes of a packet; those of the buffer are the ones below `msgsize`. Source:
`scheduler.hpp`, `packet`. -/
abbrev Packet := Nat → UInt8

/-- `MSGSTATUS_UNDONE`. -/
def msgstatusUndone : UInt32 := 0x50

/-- `MSGSTATUS_DONE`. -/
def msgstatusDone : UInt32 := 0x60

/-- The `int` fields of a `msg` that are read or written, and `machinerank` of the `heartbeat` at
the start of its payload. Source: `scheduler.hpp`, `msg`, `heartbeat`. -/
inductive Field
  | src
  | dst
  | seq
  | status
  | machinerank
  deriving DecidableEq

/-- The offset of a field. The fourth `int` of a `msg` is its `type`, which stays 0. -/
def Field.pos : Field → Nat
  | .src => 0
  | .dst => 4
  | .seq => 8
  | .status => 16
  | .machinerank => 20

namespace Packet

/-- A packet from `calloc`. -/
def zeroed : Packet := fun _ => 0

/-- Read a field. -/
def get (p : Packet) (f : Field) : UInt32 := load32 p f.pos

/-- Write a field. -/
def set (p : Packet) (f : Field) (v : UInt32) : Packet := store32 p f.pos v

/-- `rcmsg->seq`. -/
def seq (p : Packet) : UInt32 := p.get .seq

/-- `rcmsg->status`. -/
def status (p : Packet) : UInt32 := p.get .status

@[simp] theorem get_set (p : Packet) (f : Field) (v : UInt32) : (p.set f v).get f = v :=
  load32_store32 p f.pos v

/-- Writing one field leaves the others alone. -/
theorem get_set_of_ne (p : Packet) {f g : Field} (v : UInt32) (h : f ≠ g) :
    (p.set f v).get g = p.get g := by
  apply load32_store32_of_disjoint
  cases f <;> cases g <;> first | exact absurd rfl h | decide

@[simp] theorem get_zeroed (f : Field) : zeroed.get f = 0 := by
  show decode32 [0, 0, 0, 0] = 0
  decide

/-- `wmsg->status = MSGSTATUS_DONE`. Source: `worker.cpp`, `worker`. -/
def setDone (p : Packet) : Packet := p.set .status msgstatusDone

@[simp] theorem seq_setDone (p : Packet) : p.setDone.seq = p.seq :=
  get_set_of_ne p _ (by decide)

@[simp] theorem status_setDone (p : Packet) : p.setDone.status = msgstatusDone := get_set p _ _

end Packet

/-! ## The CRC -/

/-- One bit of a CRC-32. -/
def crc32Bit (c : UInt32) : UInt32 := if c &&& 1 = 1 then (c >>> 1) ^^^ 0xEDB88320 else c >>> 1

/-- A CRC-32, bit by bit. -/
def generateCrc32 (buf : List UInt8) : UInt32 :=
  buf.foldl (fun c b => crc32Bit^[8] (c ^^^ b.toUInt32)) 0xFFFFFFFF ^^^ 0xFFFFFFFF

section Crc

variable (crc : List UInt8 → UInt32)

/-- Source: `scheduler.cpp`, `encappkt`. -/
def encappkt (p : Packet) : Packet := store32 p crcpos (crc (peek p crcmsgsize))

/-- Whether the result is `CRC_OK`. Source: `scheduler.cpp`, `msg_checkcrc`. -/
def msgCheckcrc (p : Packet) : Bool := load32 p crcpos == crc (peek p crcmsgsize)

/-- The CRC lies behind the bytes it is computed from. -/
theorem crcmsgsize_le_crcpos : crcmsgsize ≤ crcpos := by decide

theorem Field.pos_add_le_crcpos (f : Field) : f.pos + 4 ≤ crcpos := by
  cases f <;> decide

/-- A packet passes the check after `encappkt`, whatever it held. -/
@[simp] theorem msgCheckcrc_encappkt (p : Packet) : msgCheckcrc crc (encappkt crc p) = true := by
  unfold msgCheckcrc encappkt
  rw [load32_store32, peek_store32_of_le p _ crcmsgsize_le_crcpos, beq_self_eq_true]

/-- `encappkt` leaves the fields alone. -/
@[simp] theorem get_encappkt (p : Packet) (f : Field) : (encappkt crc p).get f = p.get f :=
  load32_store32_of_disjoint p _ (Or.inl f.pos_add_le_crcpos)

/-! ## The packets that are sent -/

/-- Source: `scheduler.cpp`, `sendheartbeat`. -/
def heartbeatPkt (rank schedrank : UInt32) : Packet :=
  encappkt crc (((Packet.zeroed.set .src rank).set .dst schedrank).set .machinerank rank)

/-- Source: `scheduler.cpp`, `server_sendtestmsg`. -/
def taskPkt (rank outmsg destrank : UInt32) : Packet :=
  encappkt crc (((((Packet.zeroed.set .seq outmsg).set .status msgstatusUndone).set .src rank).set
    .dst destrank).set .machinerank rank)

/-- What is sent for the finished task `p`. Source: `scheduler.cpp`,
`client_sendtestmsg_wt_buffer`. -/
def replyPkt (rank schedrank : UInt32) (p : Packet) : Packet :=
  encappkt crc (((p.set .src rank).set .dst schedrank).set .machinerank rank)

theorem msgCheckcrc_heartbeatPkt (rank schedrank : UInt32) :
    msgCheckcrc crc (heartbeatPkt crc rank schedrank) = true :=
  msgCheckcrc_encappkt crc _

theorem msgCheckcrc_taskPkt (rank outmsg destrank : UInt32) :
    msgCheckcrc crc (taskPkt crc rank outmsg destrank) = true :=
  msgCheckcrc_encappkt crc _

theorem msgCheckcrc_replyPkt (rank schedrank : UInt32) (p : Packet) :
    msgCheckcrc crc (replyPkt crc rank schedrank p) = true :=
  msgCheckcrc_encappkt crc _

/-- A heartbeat has the status that `calloc` left. -/
theorem status_heartbeatPkt (rank schedrank : UInt32) :
    (heartbeatPkt crc rank schedrank).status = 0 := by
  unfold Packet.status heartbeatPkt
  rw [get_encappkt, Packet.get_set_of_ne _ _ (by decide), Packet.get_set_of_ne _ _ (by decide),
    Packet.get_set_of_ne _ _ (by decide), Packet.get_zeroed]

@[simp] theorem seq_taskPkt (rank outmsg destrank : UInt32) :
    (taskPkt crc rank outmsg destrank).seq = outmsg := by
  unfold Packet.seq taskPkt
  rw [get_encappkt, Packet.get_set_of_ne _ _ (by decide), Packet.get_set_of_ne _ _ (by decide),
    Packet.get_set_of_ne _ _ (by decide), Packet.get_set_of_ne _ _ (by decide), Packet.get_set]

/-- The reply keeps every field but the addresses. -/
theorem get_replyPkt (rank schedrank : UInt32) (p : Packet) {f : Field} (hsrc : Field.src ≠ f)
    (hdst : Field.dst ≠ f) (hrank : Field.machinerank ≠ f) :
    (replyPkt crc rank schedrank p).get f = p.get f := by
  unfold replyPkt
  rw [get_encappkt, Packet.get_set_of_ne _ _ hrank, Packet.get_set_of_ne _ _ hdst,
    Packet.get_set_of_ne _ _ hsrc]

@[simp] theorem seq_replyPkt (rank schedrank : UInt32) (p : Packet) :
    (replyPkt crc rank schedrank p).seq = p.seq :=
  get_replyPkt crc rank schedrank p (by decide) (by decide) (by decide)

@[simp] theorem status_replyPkt (rank schedrank : UInt32) (p : Packet) :
    (replyPkt crc rank schedrank p).status = p.status :=
  get_replyPkt crc rank schedrank p (by decide) (by decide) (by decide)

end Crc

end CommTest.Mpi
