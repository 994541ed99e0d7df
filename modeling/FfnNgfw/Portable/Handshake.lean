import FfnNgfw.Lib.Bytes
import FfnNgfw.Portable.Control

/-!
# The header seen from both sides

`DpRing` of the management plane reads the header of the region from a copy of its bytes, the
dataplane through its accessors. They read the same fields, but speak different versions of the
interface: 2 on the management plane, 1 on the dataplane.
-/

namespace FfnNgfw.Portable
open Mem

structure Header where
  magic : List UInt8
  abiVersion : Nat
  dpState : Nat
  hostState : Nat
  dpHeartbeat : Nat
  hostHeartbeat : Nat
  activeBank : Nat
  defaultDec : Nat
  dpCaps : Nat
  dpError : Nat
  deriving DecidableEq

namespace DpRing

def abiMagic : List UInt8 := [0x46, 0x46, 0x4E, 0x44, 0x50, 0]

def abiVer : Nat := 2

def offHdr : Nat := 0x0000

/-- `struct.unpack_from` of one little-endian number. -/
def unpackFrom (b : List UInt8) (offset size : Nat) : Nat := ByteOrder.little.fromBytes (slice b offset size)

def header (mm : Mem) : Header :=
  let b := mm.bytes offHdr 64
  { magic := slice b 0 6, abiVersion := unpackFrom b 6 2, dpState := unpackFrom b 8 4, hostState := unpackFrom b 12 4
    dpHeartbeat := unpackFrom b 16 8, hostHeartbeat := unpackFrom b 24 8
    activeBank := unpackFrom b 32 4, defaultDec := unpackFrom b 36 4
    dpCaps := unpackFrom b 40 4, dpError := unpackFrom b 44 4 }

inductive Error where
  | magic (found : List UInt8)
  | version (found speaks : Nat)
  deriving DecidableEq

def handshake (mm : Mem) : Except Error Header :=
  let h := header mm
  if h.magic ≠ abiMagic then .error (.magic h.magic)
  else if h.abiVersion ≠ abiVer then .error (.version h.abiVersion abiVer)
  else .ok h

end DpRing

/-! ### The dataplane (`struct ffn_dp_hdr_raw`) -/

def offHostState : Nat := 12
def offHostHeartbeat : Nat := 24
def offDefaultDec : Nat := 36
def offDpCaps : Nat := 40
def offDpError : Nat := 44

def hdrFields (m : Mem) : Header :=
  { magic := m.bytes 0 6, abiVersion := (ldLe16 m offAbiVersion).toNat, dpState := (ldLe32 m offDpState).toNat
    hostState := (ldLe32 m offHostState).toNat, dpHeartbeat := (ldLe64 m offDpHeartbeat).toNat
    hostHeartbeat := (ldLe64 m offHostHeartbeat).toNat, activeBank := (ldLe32 m offActiveBank).toNat
    defaultDec := (ldLe32 m offDefaultDec).toNat, dpCaps := (ldLe32 m offDpCaps).toNat, dpError := (ldLe32 m offDpError).toNat }

section fields

variable (m : Mem)

theorem slice_bytes {offset size : Nat} (inside : offset + size ≤ 64) :
    slice (m.bytes DpRing.offHdr 64) offset size = m.bytes offset size := by
  refine List.ext_getElem ?_ fun i here there => ?_
  · simp only [slice, bytes, List.length_take, List.length_drop, List.length_map, List.length_range]
    omega
  · simp [slice, bytes, DpRing.offHdr]

theorem unpack_16 {offset : Nat} (inside : offset + 2 ≤ 64) :
    DpRing.unpackFrom (m.bytes DpRing.offHdr 64) offset 2 = (ldLe16 m offset).toNat := by
  rw [DpRing.unpackFrom, slice_bytes m inside, toNat_ldLe16]
  simp [ByteOrder.fromBytes, ByteOrder.arrange, bytes, List.range_succ, Nat.ofDigits]

theorem unpack_32 {offset : Nat} (inside : offset + 4 ≤ 64) :
    DpRing.unpackFrom (m.bytes DpRing.offHdr 64) offset 4 = (ldLe32 m offset).toNat := by
  rw [DpRing.unpackFrom, slice_bytes m inside, toNat_ldLe32]
  simp [ByteOrder.fromBytes, ByteOrder.arrange, bytes, List.range_succ, Nat.ofDigits]
  omega

theorem unpack_64 {offset : Nat} (inside : offset + 8 ≤ 64) :
    DpRing.unpackFrom (m.bytes DpRing.offHdr 64) offset 8 = (ldLe64 m offset).toNat := by
  rw [DpRing.unpackFrom, slice_bytes m inside, toNat_ldLe64, toNat_ldLe32, toNat_ldLe32]
  simp [ByteOrder.fromBytes, ByteOrder.arrange, bytes, List.range_succ, Nat.ofDigits, Nat.add_assoc]
  omega

theorem header_eq_hdrFields : DpRing.header m = hdrFields m := by
  have magic := slice_bytes m (show 0 + 6 ≤ 64 by decide)
  simp only [DpRing.header, hdrFields, magic, unpack_16 m (show 6 + 2 ≤ 64 by decide), unpack_32 m (show 8 + 4 ≤ 64 by decide),
    unpack_32 m (show 12 + 4 ≤ 64 by decide), unpack_64 m (show 16 + 8 ≤ 64 by decide), unpack_64 m (show 24 + 8 ≤ 64 by decide),
    unpack_32 m (show 32 + 4 ≤ 64 by decide), unpack_32 m (show 36 + 4 ≤ 64 by decide), unpack_32 m (show 40 + 4 ≤ 64 by decide),
    unpack_32 m (show 44 + 4 ≤ 64 by decide)]
  rfl

end fields

/-- The management plane accepts what the dataplane takes for valid, and reads the same fields. -/
def Agrees (m : Mem) : Prop := ((∃ h, DpRing.handshake m = .ok h) ↔ ffnDpHdrValid m = true) ∧ DpRing.header m = hdrFields m

def SpeaksDp (m : Mem) : Prop := m.bytes 0 5 = ffnDpMagic.take 5 ∧ ldLe16 m offAbiVersion = 1

def SpeaksMp (m : Mem) : Prop := m.bytes 0 6 = DpRing.abiMagic ∧ ldLe16 m offAbiVersion = 2

theorem ffnDpHdrValid_iff (m : Mem) : ffnDpHdrValid m = true ↔ SpeaksDp m := by
  simp only [ffnDpHdrValid, Bool.and_eq_true, beq_iff_eq, SpeaksDp, abiVer]

theorem handshake_ok_iff (m : Mem) : (∃ h, DpRing.handshake m = .ok h) ↔ SpeaksMp m := by
  have version : (ldLe16 m offAbiVersion).toNat = DpRing.abiVer ↔ ldLe16 m offAbiVersion = 2 := by
    rw [← UInt16.toNat_inj]
    rfl
  unfold DpRing.handshake SpeaksMp
  rw [header_eq_hdrFields]
  dsimp only [hdrFields]
  constructor
  · rintro ⟨h, accepted⟩
    split at accepted
    · cases accepted
    · rename_i named
      split at accepted
      · cases accepted
      · rename_i same
        exact ⟨not_not.mp named, version.mp (not_not.mp same)⟩
  · rintro ⟨named, same⟩
    rw [if_neg (not_not_intro named), if_neg (not_not_intro (version.mpr same))]
    exact ⟨_, rfl⟩

theorem speaks_apart {m : Mem} (dp : SpeaksDp m) : ¬ SpeaksMp m := fun mp => absurd (dp.2.symm.trans mp.2) (by decide)

theorem agrees_iff (m : Mem) : Agrees m ↔ ¬ SpeaksDp m ∧ ¬ SpeaksMp m := by
  unfold Agrees
  rw [handshake_ok_iff, ffnDpHdrValid_iff]
  constructor
  · rintro ⟨same, -⟩
    exact ⟨fun dp => speaks_apart dp (same.mpr dp), fun mp => speaks_apart (same.mp mp) mp⟩
  · rintro ⟨noDp, noMp⟩
    exact ⟨iff_of_false noMp noDp, header_eq_hdrFields m⟩

/-! ### A created region -/

/-- The header that `dp_region_attach` writes: name, version and state. -/
def created (m : Mem) : Mem := ringInit (ringInit (ffnDpHdrInit m .boot) offCmdRing) offEvtRing

theorem created_low (m : Mem) {a : Nat} (low : a < 64) : created m a = ffnDpHdrInit m .boot a := by
  unfold created ringInit
  rw [fill_outside _ _ _ _ (.inl (by unfold offEvtRing; omega)), fill_outside _ _ _ _ (.inl (by unfold offCmdRing; omega))]

theorem stLe32_low {m : Mem} {p a : Nat} {v : UInt32} (low : a < p) : stLe32 m p v a = m a := write_below _ _ _ low

theorem created_named (m : Mem) : At (created m) 0 ffnDpMagic := by
  intro i inside
  have small : i < 6 := inside
  rw [Nat.zero_add, created_low m (by omega), ffnDpHdrInit, stLe32_low (by unfold offDpState; omega), stLe16,
    write_below _ _ _ (by unfold offAbiVersion; omega)]
  have there := write_inside (m.fill 0 0 hdrSize) 0 ffnDpMagic inside
  rw [Nat.zero_add] at there
  exact there

theorem created_version (m : Mem) : ldLe16 (created m) offAbiVersion = 1 := by
  refine ldLe16_of_at fun i inside => ?_
  have small : i < 2 := inside
  rw [created_low m (by unfold offAbiVersion; omega), ffnDpHdrInit, stLe32_low (by unfold offAbiVersion offDpState; omega)]
  exact write_inside _ _ _ inside

theorem header_below_state (m : Mem) (v : UInt32) : (stLe32 m offDpState v).bytes 0 6 = m.bytes 0 6 ∧
    ldLe16 (stLe32 m offDpState v) offAbiVersion = ldLe16 m offAbiVersion := by
  refine ⟨bytes_congr fun i inside => ?_, ldLe16_congr fun i inside => ?_⟩
  · exact stLe32_low (by unfold offDpState; omega)
  · exact stLe32_low (by unfold offAbiVersion offDpState; omega)

theorem created_valid (m : Mem) : ffnDpHdrValid (created m) = true := by
  rw [ffnDpHdrValid_iff]
  have named : (created m).bytes 0 6 = ffnDpMagic := bytes_of_at (created_named m)
  refine ⟨?_, created_version m⟩
  rw [← named]
  simp [bytes, List.range_succ]

theorem attach_created (c : DpCtx) (m : Mem) {size : Nat} (large : offStats ≤ size) :
    (dpRegionAttach c (some m) size true).2 = .ok ∧
      (dpRegionAttach c (some m) size true).1.region.map DpRing.handshake = some (.error (.version 1 2)) := by
  have attached : dpRegionAttach c (some m) size true =
      (dpSetState { c with region := some (created m), regionSize := size } .handshake, .ok) := by
    simp only [dpRegionAttach]
    rw [if_neg (Nat.not_lt.mpr large)]
    exact if_pos (created_valid m)
  obtain ⟨sameName, sameVersion⟩ := header_below_state (created m) DpState.handshake.code
  have named : (created m).bytes 0 6 = DpRing.abiMagic := bytes_of_at (created_named m)
  rw [attached]
  refine ⟨rfl, ?_⟩
  show some (DpRing.handshake (stLe32 (created m) offDpState _)) = _
  unfold DpRing.handshake
  rw [header_eq_hdrFields]
  dsimp only [hdrFields]
  rw [sameName, sameVersion, named, created_version, if_neg (not_not_intro rfl)]
  rfl

/-- Where the planes agree: on what neither of them accepts. -/
theorem planes_agree_iff (m : Mem) (c : DpCtx) {size : Nat} (large : offStats ≤ size) :
    (Agrees m ↔ ¬ SpeaksDp m ∧ ¬ SpeaksMp m) ∧ (dpRegionAttach c (some m) size true).2 = .ok ∧
      (dpRegionAttach c (some m) size true).1.region.map DpRing.handshake = some (.error (.version 1 2)) :=
  ⟨agrees_iff m, attach_created c m large⟩

def zeroed : Mem := fun _ => 0

def bareCtx : DpCtx := ((dpInit true .ok 1).get dpInit_one).1

theorem zeroed_agrees : Agrees zeroed ∧ (dpRegionAttach bareCtx (some zeroed) offStats true).2 = .ok := by
  obtain ⟨agrees, attached, -⟩ := planes_agree_iff zeroed bareCtx (Nat.le_refl offStats)
  refine ⟨agrees.mpr ⟨fun dp => ?_, fun mp => ?_⟩, attached⟩
  · exact absurd dp.2 (by decide)
  · exact absurd mp.2 (by decide)

/-- `FFNDP`, a zero and version 1. -/
def dpHeader : Mem := fun a => (ffnDpMagic ++ [1, 0]).getD a 0

theorem dpHeader_refused : ¬ Agrees dpHeader := by
  rintro ⟨same, -⟩
  obtain ⟨h, accepted⟩ := same.mpr (by decide)
  have refused : (DpRing.handshake dpHeader).toOption = none := by decide +kernel
  rw [accepted] at refused
  cases refused

end FfnNgfw.Portable
