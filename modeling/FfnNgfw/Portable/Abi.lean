import FfnNgfw.Lib.Memory

/-!
# The shared region

`ffn_dp_abi.h`: the window through which the management plane and the portable
dataplane talk. It holds a header, a command ring, an event ring and two policy
banks. Every multi-byte field is little-endian. Addresses are offsets from the
base of the window.
-/

namespace FfnNgfw.Portable
open Mem

/-! ### Region layout -/

def offCmdRing : Nat := 0x0040
def offEvtRing : Nat := 0x1040
def offStats : Nat := 0x2040
def offBank0 : Nat := 0x4000
def bankSize : Nat := 0x400000
def offBank1 : Nat := offBank0 + bankSize

inductive DpState where
  | reset | boot | handshake | ready | error
  deriving DecidableEq

def DpState.code : DpState → UInt32
  | .reset => 0
  | .boot => 1
  | .handshake => 2
  | .ready => 3
  | .error => 4

inductive Cmd where
  | nop | ping | setBank | getStats | setDefault | flushFlows | shutdown | unknown (op : UInt16)
  deriving DecidableEq

/-- The opcode of a descriptor. The switch of `dp_service_commands` ignores the others. -/
def Cmd.ofCode (op : UInt16) : Cmd :=
  match op.toNat with
  | 0 => .nop
  | 1 => .ping
  | 2 => .setBank
  | 3 => .getStats
  | 4 => .setDefault
  | 5 => .flushFlows
  | 6 => .shutdown
  | _ => .unknown op

inductive Evt where
  | none | pong | ready | stats | error | flowDrop
  deriving DecidableEq

def Evt.code : Evt → UInt16
  | .none => 0
  | .pong => 1
  | .ready => 2
  | .stats => 3
  | .error => 4
  | .flowDrop => 5

/-! ### Region header: field offsets in `struct ffn_dp_hdr_raw` -/

def hdrSize : Nat := 64
def offAbiVersion : Nat := 6
def offDpState : Nat := 8
def offDpHeartbeat : Nat := 16
def offActiveBank : Nat := 32

def abiVer : UInt16 := 1

def ffnDpMagic : List UInt8 := [0x46, 0x46, 0x4E, 0x44, 0x50, 0]

def ffnDpHdrValid (m : Mem) : Bool :=
  m.bytes 0 5 == ffnDpMagic.take 5 && ldLe16 m offAbiVersion == abiVer

def ffnDpHdrInit (m : Mem) (state : DpState) : Mem :=
  let m := m.fill 0 0 hdrSize
  let m := m.write 0 ffnDpMagic
  let m := stLe16 m offAbiVersion abiVer
  stLe32 m offDpState state.code

/-! ### Rings

`[head le32][tail le32][pad 8][descriptors]`: the producer owns the head, the
consumer the tail, and both count modulo 2^32. -/

def ringDescs : UInt32 := 64
def descSize : Nat := 32
def ringHdrSz : Nat := 16

def ringHead (m : Mem) (ring : Nat) : UInt32 := ldLe32 m ring
def ringTail (m : Mem) (ring : Nat) : UInt32 := ldLe32 m (ring + 4)
def ringSetHead (m : Mem) (ring : Nat) (v : UInt32) : Mem := stLe32 m ring v
def ringSetTail (m : Mem) (ring : Nat) (v : UInt32) : Mem := stLe32 m (ring + 4) v

def ringDesc (ring : Nat) (idx : UInt32) : Nat :=
  ring + ringHdrSz + (idx % ringDescs).toNat * descSize

structure Desc where
  opcode : UInt16
  arg0 : UInt64
  arg1 : UInt64
  arg2 : UInt64
  deriving DecidableEq

/-- `ffn_dp_ring_push`: `none` when the ring is full. -/
def ringPush (m : Mem) (ring : Nat) (d : Desc) : Option Mem :=
  let head := ringHead m ring
  let tail := ringTail m ring
  if ringDescs ≤ head - tail then none
  else
    let p := ringDesc ring head
    let m := stLe16 m p d.opcode
    let m := stLe16 m (p + 2) 0
    let m := stLe32 m (p + 4) head
    let m := stLe64 m (p + 8) d.arg0
    let m := stLe64 m (p + 16) d.arg1
    let m := stLe64 m (p + 24) d.arg2
    some (ringSetHead m ring (head + 1))

/-- `ffn_dp_ring_pop`: `none` when the ring is empty. -/
def ringPop (m : Mem) (ring : Nat) : Option (Mem × Desc) :=
  let head := ringHead m ring
  let tail := ringTail m ring
  if head = tail then none
  else
    let p := ringDesc ring tail
    let d : Desc := ⟨ldLe16 m p, ldLe64 m (p + 8), ldLe64 m (p + 16), ldLe64 m (p + 24)⟩
    some (ringSetTail m ring (tail + 1), d)

def ringInit (m : Mem) (ring : Nat) : Mem :=
  m.fill ring 0 (ringHdrSz + ringDescs.toNat * descSize)

end FfnNgfw.Portable
