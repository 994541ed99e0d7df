import FfnNgfw.Lib.Arena

/-!
# The shared model region

`ffn_dpmem.h`: a header with two banks. A bank is a record of typed fields and a
slot directory over its own arena; the arenas follow the header in one region of
memory. Pointers are absolute addresses, 0 is NULL. A bank is named by a Boolean,
the low bit of its number.
-/

namespace FfnNgfw.Dpmem
open Mem

inductive ModelType where
  | acTables | dfaTable | mlTree | ngramParams | sigTable
  deriving DecidableEq

structure Slot where
  type : UInt32
  flags : UInt32
  offset : Nat
  size : Nat
  version : UInt32
  crc32 : UInt32
  deriving DecidableEq

def slotPresent : UInt32 := 0x1

/-- `struct ffn_dpmem_bank`. The arena binding and the cursor are the fields of `Arena`. -/
structure Bank extends Arena where
  seq : UInt32
  modelCount : UInt32
  slot : ModelType → Slot
  mlVersion : UInt32
  mlFeaturesVersion : UInt32
  mlKind : UInt8
  mlTreeBlob : Nat
  mlTreeLen : UInt32
  mlNgramParams : Nat
  mlNgramLen : UInt32
  policy : Nat
  policyN : UInt32
  tiSeq : UInt32
  sig : Nat
  sigN : UInt32
  ioc : Nat
  iocN : UInt32
  hotSid : UInt32
  hotVerdict : UInt8
  hotSha : List UInt8
  hotTs : UInt64

/-- The header at `addr`, with the memory it lives in. -/
structure Hdr where
  addr : Nat
  activeBank : UInt32
  bankOff : Bool → Nat
  bankSize : Nat
  bank : Bool → Bank
  mem : Mem

/-! ### Reading -/

def bankIx (bank : UInt32) : Bool := bank &&& 1 != 0

def bankNum (i : Bool) : UInt32 := if i then 1 else 0

theorem bankIx_bankNum : ∀ i, bankIx (bankNum i) = i := by decide

def Hdr.active (d : Hdr) : Bool := bankIx d.activeBank

def Hdr.inactive (d : Hdr) : Bool := !d.active

def Hdr.arena (d : Hdr) (i : Bool) : Nat := d.addr + d.bankOff i

def Hdr.setBank (d : Hdr) (i : Bool) (b : Bank) : Hdr := { d with bank := Function.update d.bank i b }

/-! ### Cloning, binding, publishing

`ffn_dpmem_bank_clone`, `ffn_dpmem_bank` and `ffn_dpmem_publish`. -/

/-- `p + delta` for the distance from arena `src` to arena `dst`. -/
def Hdr.shift (d : Hdr) (dst src : Bool) (p : Nat) : Nat :=
  (p + (2 ^ 64 + d.bankOff dst - d.bankOff src)) % 2 ^ 64

def Hdr.rebase (d : Hdr) (dst src : Bool) (p : Nat) : Nat := if p = 0 then 0 else d.shift dst src p

def Hdr.cloneSlot (d : Hdr) (dst src : Bool) (s : Slot) : Slot :=
  if s.flags &&& slotPresent ≠ 0 then { s with offset := d.shift dst src s.offset } else s

/-- The record of bank `dst` after `ffn_dpmem_bank_clone`. Strings behind the rows of
`sig` and `ioc` are not rebased. -/
def Hdr.cloneBank (d : Hdr) (dst src : Bool) : Bank :=
  let bs := d.bank src
  { bs with
    seq := (d.bank dst).seq + 1
    base := d.arena dst
    size := d.bankSize
    slot := fun t => d.cloneSlot dst src (bs.slot t)
    mlTreeBlob := d.rebase dst src bs.mlTreeBlob
    mlNgramParams := d.rebase dst src bs.mlNgramParams
    policy := d.rebase dst src bs.policy
    sig := d.rebase dst src bs.sig
    ioc := d.rebase dst src bs.ioc }

def Hdr.bankClone (d : Hdr) (dst src : Bool) : Hdr :=
  { d with
    mem := d.mem.copy (d.arena dst) (d.arena src) (d.bank src).used
    bank := Function.update d.bank dst (d.cloneBank dst src) }

def Hdr.bindBank (d : Hdr) (i : Bool) : Hdr :=
  d.setBank i { d.bank i with base := d.arena i, size := d.bankSize }

def Hdr.publish (d : Hdr) (i : Bool) : Hdr :=
  let b := d.bank i
  { d.setBank i { b with seq := if b.seq &&& 1 ≠ 0 then b.seq + 1 else b.seq } with activeBank := bankNum i }

/-- How every staged update starts: clone the active bank into the inactive one and
bind the clone. -/
def Hdr.cloned (d : Hdr) : Hdr := (d.bankClone d.inactive d.active).bindBank d.inactive

def Bank.arenaAlloc (b : Bank) (size : Nat) : Option (Nat × Bank) :=
  (b.toArena.alloc size).map fun (p, r) => (p, { b with toArena := r })

def Bank.arenaDup (m : Mem) (b : Bank) (src : List UInt8) : Option (Nat × Mem × Bank) :=
  (b.toArena.dup m src).map fun (p, m, r) => (p, m, { b with toArena := r })

def ModelType.code : ModelType → UInt32
  | .acTables => 0
  | .dfaTable => 1
  | .mlTree => 2
  | .ngramParams => 3
  | .sigTable => 4

structure Model where
  type : ModelType
  src : List UInt8
  version : UInt32
  crc32 : UInt32
  short : src.length < Arena.maxBlock

def sizeofTlv : Nat := 24

/-- `none` when the arena is too small for the record. -/
def Hdr.bankPut (d : Hdr) (i : Bool) (s : Model) : Option Hdr :=
  let bk := d.bank i
  let cur := alignUp bk.used Arena.align
  let need := sizeofTlv + s.src.length
  if d.bankSize < (cur + need) % 2 ^ 64 then none
  else
    let len := UInt64.ofNat s.src.length
    let m := d.mem.write (d.arena i + cur) (le32 s.type.code ++ le32 0 ++ le64 len ++ le32 s.version ++ le32 s.crc32)
    let slot : Slot := ⟨s.type.code, slotPresent, d.bankOff i + cur + sizeofTlv, s.src.length, s.version, s.crc32⟩
    let bk := { bk with
      slot := Function.update bk.slot s.type slot
      used := (cur + need) % 2 ^ 64
      modelCount := bk.modelCount + 1 }
    some { d.setBank i bk with mem := m.write (d.arena i + cur + sizeofTlv) s.src }

def sizeofHdr : Nat := 792

def hdrSize : Nat := alignUp sizeofHdr Arena.align

def Bank.zero : Bank where
  base := 0
  size := 0
  used := 0
  seq := 0
  modelCount := 0
  slot := fun _ => ⟨0, 0, 0, 0, 0, 0⟩
  mlVersion := 0
  mlFeaturesVersion := 0
  mlKind := 0
  mlTreeBlob := 0
  mlTreeLen := 0
  mlNgramParams := 0
  mlNgramLen := 0
  policy := 0
  policyN := 0
  tiSeq := 0
  sig := 0
  sigN := 0
  ioc := 0
  iocN := 0
  hotSid := 0
  hotVerdict := 0
  hotSha := List.replicate 32 0
  hotTs := 0

/-- `dpmem_reserve`: the memory zone is at `addr`, and its arenas hold what `mem` holds. -/
def dpmemReserve (addr bankSize : Nat) (mem : Mem) : Hdr where
  addr := addr
  activeBank := 0
  bankOff i := if i then hdrSize + bankSize else hdrSize
  bankSize := bankSize
  bank _ := Bank.zero
  mem := mem

/-- The arenas lie one after the other inside the address space, every cursor is
inside its arena, and the active bank is one of the two. -/
structure Hdr.Wf (d : Hdr) : Prop where
  placed : 0 < d.addr
  order : d.bankOff false + d.bankSize ≤ d.bankOff true
  mapped : d.addr + d.bankOff true + d.bankSize ≤ 2 ^ 64
  used : ∀ i, (d.bank i).used ≤ d.bankSize
  numbered : d.activeBank = bankNum d.active

def Region : Type := { d : Hdr // d.Wf }

theorem reserve_wf {addr bankSize : Nat} (mem : Mem) (placed : 0 < addr)
    (mapped : addr + (hdrSize + bankSize) + bankSize ≤ 2 ^ 64) : (dpmemReserve addr bankSize mem).Wf :=
  ⟨placed, Nat.le_refl _, mapped, fun _ => Nat.zero_le _, show (0 : UInt32) = bankNum (bankIx 0) by decide⟩

theorem lines_mapped : 4096 + (hdrSize + 128) + 128 ≤ 2 ^ 64 := by decide

section layout

variable {d : Hdr} (wf : d.Wf)
include wf

theorem Hdr.Wf.bankSize_lt : d.bankSize < 2 ^ 63 := by
  obtain ⟨placed, order, mapped, _, _⟩ := wf
  omega

theorem Hdr.Wf.apart (i : Bool) : d.arena i + d.bankSize ≤ d.arena (!i) ∨ d.arena (!i) + d.bankSize ≤ d.arena i := by
  have order := wf.order
  unfold Hdr.arena
  cases i with
  | false => exact Or.inl (by simp only [Bool.not_false]; omega)
  | true => exact Or.inr (by simp only [Bool.not_true]; omega)

theorem Hdr.Wf.arena_mapped (i : Bool) : d.arena i + d.bankSize ≤ 2 ^ 64 := by
  obtain ⟨_, order, mapped, _, _⟩ := wf
  unfold Hdr.arena
  cases i with
  | false => omega
  | true => omega

theorem Hdr.Wf.shift_arena (dst src : Bool) {o : Nat} (inside : o < d.bankSize) :
    d.shift dst src (d.arena src + o) = d.arena dst + o := by
  have placedSrc := wf.arena_mapped src
  have placedDst := wf.arena_mapped dst
  unfold Hdr.shift
  unfold Hdr.arena at placedSrc placedDst ⊢
  omega

end layout

/-! ### What a clone does -/

section cloned

variable (d : Hdr)

theorem inactive_ne_active : d.inactive ≠ d.active := by
  unfold Hdr.inactive
  cases d.active <;> decide

theorem eq_active_or_inactive (i : Bool) : i = d.active ∨ i = d.inactive := by
  unfold Hdr.inactive
  cases i <;> cases d.active <;> decide

theorem cloned_bank_active : d.cloned.bank d.active = d.bank d.active := by
  have ne := (inactive_ne_active d).symm
  unfold Hdr.cloned Hdr.bindBank Hdr.setBank Hdr.bankClone
  dsimp only
  rw [Function.update_of_ne ne, Function.update_of_ne ne]

theorem cloned_bank_inactive : d.cloned.bank d.inactive = d.cloneBank d.inactive d.active := by
  unfold Hdr.cloned Hdr.bindBank Hdr.setBank Hdr.bankClone
  dsimp only
  rw [Function.update_self, Function.update_self]
  rfl

theorem cloned_mem_copy {o : Nat} (below : o < (d.bank d.active).used) :
    d.cloned.mem (d.arena d.inactive + o) = d.mem (d.arena d.active + o) :=
  Mem.copy_inside d.mem (d.arena d.inactive) (d.arena d.active) _ below

theorem cloned_mem_outside {a : Nat}
    (outside : a < d.arena d.inactive ∨ d.arena d.inactive + (d.bank d.active).used ≤ a) :
    d.cloned.mem a = d.mem a :=
  Mem.copy_outside d.mem (d.arena d.inactive) (d.arena d.active) _ outside

end cloned

theorem cloned_mem_frame {d : Hdr} (wf : d.Wf) {a : Nat}
    (outside : a < d.arena d.inactive ∨ d.arena d.inactive + d.bankSize ≤ a) : d.cloned.mem a = d.mem a := by
  have used := wf.used d.active
  exact cloned_mem_outside d (by omega)

theorem cloned_wf {d : Hdr} (wf : d.Wf) : d.cloned.Wf := by
  refine ⟨wf.placed, wf.order, wf.mapped, fun i => ?_, wf.numbered⟩
  rcases eq_active_or_inactive d i with rfl | rfl
  · rw [cloned_bank_active]
    exact wf.used d.active
  · rw [cloned_bank_inactive]
    exact wf.used d.active

theorem cloned_arena_wf {d : Hdr} (wf : d.Wf) : (d.cloned.bank d.inactive).toArena.Wf := by
  rw [cloned_bank_inactive]
  exact ⟨wf.used d.active, wf.bankSize_lt, wf.arena_mapped d.inactive⟩

theorem cloned_bound {d : Hdr} (wf : d.Wf) : (d.cloned.bank d.inactive).base = d.arena d.inactive ∧
    0 < (d.cloned.bank d.inactive).base := by
  have base : (d.cloned.bank d.inactive).base = d.arena d.inactive := by
    rw [cloned_bank_inactive]
    rfl
  have placed := wf.placed
  refine ⟨base, ?_⟩
  rw [base, Hdr.arena]
  omega

end FfnNgfw.Dpmem
