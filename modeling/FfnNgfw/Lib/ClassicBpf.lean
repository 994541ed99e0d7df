import FfnNgfw.Lib.Digits
import Mathlib.Tactic.Common

/-!
# Classic BPF

Socket filters: programs of loads, forward jumps and returns over two registers and one
frame. The scratch memory and the arithmetic instructions are left out. A program that loads
past the end of its frame, runs off its end or holds another instruction rejects the frame.
-/

namespace FfnNgfw

/-- `struct sock_filter` -/
structure Instruction where
  code : UInt16
  jt : UInt8
  jf : UInt8
  k : UInt32
  deriving DecidableEq

namespace Instruction

inductive Size where
  | word
  | half
  | byte

inductive Test where
  | eq
  | gt
  | ge
  | set

inductive Operation where
  | load (size : Size) (indexed : Bool)
  | loadConstant
  | loadLength
  | indexConstant
  | indexLength
  /-- Four times the low half of a byte: the header length of IPv4. -/
  | indexHeader
  | jump
  | branch (test : Test) (indexed : Bool)
  | ret (accumulated : Bool)
  | tax
  | txa

def operation (code : Nat) : Option Operation :=
  match code with
  | 0x20 => some (.load .word false)
  | 0x28 => some (.load .half false)
  | 0x30 => some (.load .byte false)
  | 0x40 => some (.load .word true)
  | 0x48 => some (.load .half true)
  | 0x50 => some (.load .byte true)
  | 0x00 => some .loadConstant
  | 0x80 => some .loadLength
  | 0x01 => some .indexConstant
  | 0x81 => some .indexLength
  | 0xb1 => some .indexHeader
  | 0x05 => some .jump
  | 0x15 => some (.branch .eq false)
  | 0x25 => some (.branch .gt false)
  | 0x35 => some (.branch .ge false)
  | 0x45 => some (.branch .set false)
  | 0x1d => some (.branch .eq true)
  | 0x2d => some (.branch .gt true)
  | 0x3d => some (.branch .ge true)
  | 0x4d => some (.branch .set true)
  | 0x06 => some (.ret false)
  | 0x16 => some (.ret true)
  | 0x07 => some .tax
  | 0x87 => some .txa
  | _ => none

def Size.bytes : Size → Nat
  | .word => 4
  | .half => 2
  | .byte => 1

def Test.holds (a b : UInt32) : Test → Bool
  | .eq => a == b
  | .gt => b < a
  | .ge => b ≤ a
  | .set => a &&& b != 0

structure Registers where
  a : UInt32
  x : UInt32

/-- Go on after so many instructions, or the answer: how much of the frame is kept. -/
inductive Outcome where
  | go (skipped : Nat) (r : Registers)
  | stop (kept : UInt32)

/-- The number at `offset`, in network order. -/
def field (size : Nat) (frame : List UInt8) (offset : Nat) : Option Nat :=
  if offset + size ≤ frame.length then some (ByteOrder.big.fromBytes (slice frame offset size)) else none

def loaded (value : Option Nat) (write : UInt32 → Registers) : Outcome :=
  match value with
  | some value => .go 0 (write (UInt32.ofNat value))
  | none => .stop 0

def Operation.run (i : Instruction) (frame : List UInt8) (r : Registers) : Operation → Outcome
  | .load size indexed =>
    loaded (field size.bytes frame (if indexed then r.x + i.k else i.k).toNat) fun a => { r with a := a }
  | .loadConstant => .go 0 { r with a := i.k }
  | .loadLength => .go 0 { r with a := UInt32.ofNat frame.length }
  | .indexConstant => .go 0 { r with x := i.k }
  | .indexLength => .go 0 { r with x := UInt32.ofNat frame.length }
  | .indexHeader => loaded ((field 1 frame i.k.toNat).map fun value => value % 16 * 4) fun x => { r with x := x }
  | .jump => .go i.k.toNat r
  | .branch test indexed => .go (if test.holds r.a (if indexed then r.x else i.k) then i.jt else i.jf).toNat r
  | .ret accumulated => .stop (if accumulated then r.a else i.k)
  | .tax => .go 0 { r with x := r.a }
  | .txa => .go 0 { r with a := r.x }

/-- Jumps only go forward, so the rest of the program is all that can still run. -/
def exec (frame : List UInt8) : List Instruction → Registers → UInt32
  | [], _ => 0
  | i :: rest, r =>
    match operation i.code.toNat with
    | none => 0
    | some op =>
      match op.run i frame r with
      | .stop kept => kept
      | .go skipped r => exec frame (rest.drop skipped) r
termination_by program => program.length
decreasing_by simp only [List.length_drop, List.length_cons]; omega

/-- `struct.pack('HBBI', ...)` -/
def pack (order : ByteOrder) (i : Instruction) : List UInt8 :=
  order.toBytes 2 i.code.toNat ++ [i.jt, i.jf] ++ order.toBytes 4 i.k.toNat

def unpack (order : ByteOrder) (raw : List UInt8) : Instruction where
  code := UInt16.ofNat (order.fromBytes (slice raw 0 2))
  jt := raw.getD 2 0
  jf := raw.getD 3 0
  k := UInt32.ofNat (order.fromBytes (slice raw 4 4))

/-- `count` instructions from the front of a text. -/
def unpackAll (order : ByteOrder) : Nat → List UInt8 → List Instruction
  | 0, _ => []
  | count + 1, raw => unpack order (raw.take 8) :: unpackAll order count (raw.drop 8)

/-- What a filter attached as `raw` keeps of a frame; the registers start at zero. -/
def filter (order : ByteOrder) (raw : List UInt8) (count : Nat) (frame : List UInt8) : UInt32 :=
  exec frame (unpackAll order count raw) ⟨0, 0⟩

variable {order : ByteOrder}

theorem pack_length (i : Instruction) : (i.pack order).length = 8 := by
  simp [pack, ByteOrder.toBytes_length]

theorem unpack_pack (i : Instruction) : unpack order (i.pack order) = i := by
  have code : slice (i.pack order) 0 2 = order.toBytes 2 i.code.toNat := by
    simp [slice, pack, List.take_left' (order.toBytes_length 2 i.code.toNat)]
  have k : slice (i.pack order) 4 4 = order.toBytes 4 i.k.toNat := by
    have front : (order.toBytes 2 i.code.toNat ++ [i.jt, i.jf]).length = 4 := by simp [ByteOrder.toBytes_length]
    simpa [pack] using @slice_append _ _ [] _ _ front (order.toBytes_length 4 i.k.toNat)
  have jumps : (i.pack order).getD 2 0 = i.jt ∧ (i.pack order).getD 3 0 = i.jf := by
    simp [pack, List.getD_eq_getElem?_getD, ByteOrder.toBytes_length]
  unfold unpack
  rw [code, k, jumps.1, jumps.2, ByteOrder.fromBytes_toBytes order i.code.toNat_lt,
    ByteOrder.fromBytes_toBytes order i.k.toNat_lt, UInt16.ofNat_toNat, UInt32.ofNat_toNat]

theorem unpackAll_pack (program : List Instruction) :
    unpackAll order program.length (program.flatMap (pack order)) = program := by
  induction program with
  | nil => rfl
  | cons i rest ih =>
    have front : (pack order i ++ rest.flatMap (pack order)).take 8 = i.pack order :=
      List.take_left' (pack_length i)
    have later : (pack order i ++ rest.flatMap (pack order)).drop 8 = rest.flatMap (pack order) :=
      List.drop_left' (pack_length i)
    rw [List.flatMap_cons, List.length_cons, unpackAll, front, later, unpack_pack, ih]

/-! ### Rules: what it takes for a program to keep a frame -/

variable {frame : List UInt8} {i : Instruction} {rest : List Instruction} {r : Registers}

def Keeps (frame : List UInt8) (program : List Instruction) (r : Registers) : Prop := exec frame program r ≠ 0

variable {op : Operation} {offset size : Nat}

theorem keeps_stop {kept : UInt32} (decoded : operation i.code.toNat = some op)
    (answer : op.run i frame r = .stop kept) : Keeps frame (i :: rest) r ↔ kept ≠ 0 := by
  unfold Keeps
  rw [exec]
  simp only [decoded, answer]

theorem keeps_go {skipped : Nat} {r' : Registers} (decoded : operation i.code.toNat = some op)
    (answer : op.run i frame r = .go skipped r') : Keeps frame (i :: rest) r ↔ Keeps frame (rest.drop skipped) r' := by
  unfold Keeps
  rw [exec]
  simp only [decoded, answer]

theorem keeps_loaded {value : Option Nat} {write : UInt32 → Registers} (decoded : operation i.code.toNat = some op)
    (answer : op.run i frame r = loaded value write) :
    Keeps frame (i :: rest) r ↔ ∃ v, value = some v ∧ Keeps frame rest (write (UInt32.ofNat v)) := by
  cases value with
  | none =>
    rw [keeps_stop decoded answer]
    simp
  | some v =>
    rw [keeps_go decoded answer]
    simp

theorem keeps_load {size : Size} (decoded : operation i.code.toNat = some (.load size false)) :
    Keeps frame (i :: rest) r ↔
      ∃ v, field size.bytes frame i.k.toNat = some v ∧ Keeps frame rest { r with a := UInt32.ofNat v } :=
  keeps_loaded decoded (show _ = loaded _ fun a => { r with a := a } from rfl)

theorem keeps_header (decoded : operation i.code.toNat = some .indexHeader) :
    Keeps frame (i :: rest) r ↔
      ∃ v, field 1 frame i.k.toNat = some v ∧ Keeps frame rest { r with x := UInt32.ofNat (v % 16 * 4) } := by
  rw [keeps_loaded decoded rfl]
  simp

theorem keeps_taken {test : Test} (decoded : operation i.code.toNat = some (.branch test false)) (holds : test.holds r.a i.k) :
    Keeps frame (i :: rest) r ↔ Keeps frame (rest.drop i.jt.toNat) r := by
  rw [keeps_go decoded rfl]
  simp [holds]

theorem keeps_passed {test : Test} (decoded : operation i.code.toNat = some (.branch test false)) (fails : ¬ test.holds r.a i.k) :
    Keeps frame (i :: rest) r ↔ Keeps frame (rest.drop i.jf.toNat) r := by
  rw [keeps_go decoded rfl]
  simp [fails]

theorem keeps_ret (decoded : operation i.code.toNat = some (.ret false)) : Keeps frame (i :: rest) r ↔ i.k ≠ 0 :=
  keeps_stop decoded rfl

theorem field_lt {size offset value : Nat} (read : field size frame offset = some value) : value < 256 ^ size := by
  unfold field at read
  split at read
  · next inside =>
    have bound := ByteOrder.fromBytes_lt (slice frame offset size)
    have width : (slice frame offset size).length = size := by
      simp only [slice, List.length_take, List.length_drop]
      omega
    rw [width] at bound
    cases read
    exact bound
  · cases read

theorem toNat_field {size offset value : Nat} (read : field size frame offset = some value) (narrow : size ≤ 4) :
    (UInt32.ofNat value).toNat = value := by
  have bound := (field_lt read).trans_le (Nat.pow_le_pow_right (by decide : 0 < 256) narrow)
  exact UInt32.toNat_ofNat_of_lt' bound

theorem field_holds_eq {size offset value : Nat} (read : field size frame offset = some value) (narrow : size ≤ 4) (k : UInt32) :
    Test.eq.holds (UInt32.ofNat value) k ↔ value = k.toNat := by
  rw [Test.holds, beq_iff_eq, ← UInt32.toNat_inj, toNat_field read narrow]

theorem keeps_expect {j : Instruction} {x : UInt32}
    (decoded : operation i.code.toNat = some op) (answer : op.run i frame r = loaded (field size frame offset) (⟨·, x⟩))
    (narrow : size ≤ 4) (tests : operation j.code.toNat = some (.branch .eq false))
    (dead : ∀ r, ¬ Keeps frame (rest.drop j.jf.toNat) r) :
    Keeps frame (i :: j :: rest) r ↔
      field size frame offset = some j.k.toNat ∧ Keeps frame (rest.drop j.jt.toNat) ⟨j.k, x⟩ := by
  rw [keeps_loaded decoded answer]
  constructor
  · intro ⟨v, read, kept⟩
    by_cases same : Test.eq.holds (UInt32.ofNat v) j.k
    · rw [keeps_taken tests same, eq_of_beq same] at kept
      rw [read, (field_holds_eq read narrow j.k).mp same]
      exact ⟨rfl, kept⟩
    · rw [keeps_passed tests same] at kept
      exact absurd kept (dead _)
  · intro ⟨read, kept⟩
    refine ⟨_, read, (keeps_taken tests ((field_holds_eq read narrow j.k).mpr rfl)).mpr ?_⟩
    rwa [UInt32.ofNat_toNat]

end Instruction

end FfnNgfw
