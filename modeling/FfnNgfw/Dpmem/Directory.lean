import FfnNgfw.Dpmem.Bank
import FfnNgfw.Dpmem.Exhaustion
import Mathlib.Tactic.Common

/-!
# Bounds of the arena

`ffn_dpmem_arena_alloc` and `ffn_dpmem_bank_put` compare the end of the new block with the
end of the arena. Cursor, record header and length are added as 64-bit words, so that a
length close to 2^64 brings the sum back to the start of the arena.
-/

namespace FfnNgfw.Dpmem
open Mem

/-- `none` for a number that is no model type. -/
def ModelType.ofCode (t : UInt32) : Option ModelType :=
  if t = 0 then some .acTables
  else if t = 1 then some .dfaTable
  else if t = 2 then some .mlTree
  else if t = 3 then some .ngramParams
  else if t = 4 then some .sigTable
  else none

/-- The arguments of a call. `src` is `none` for NULL; otherwise `len` bytes are there. -/
structure Put where
  type : UInt32
  src : Option (List UInt8)
  len : UInt64
  version : UInt32
  crc32 : UInt32
  whole : ∀ bytes ∈ src, bytes.length = len.toNat

/-- `sizeof(struct ffn_dpmem_tlv) + len` -/
def Put.need (p : Put) : Nat := (sizeofTlv + p.len.toNat) % 2 ^ 64

def Put.tlv (p : Put) : List UInt8 := le32 p.type ++ le32 0 ++ le64 p.len ++ le32 p.version ++ le32 p.crc32

/-- The record at `at'`. Without a source the payload is left as it is. -/
def Put.store (p : Put) (m : Mem) (at' : Nat) : Mem :=
  match p.src with
  | some bytes => (m.write at' p.tlv).write (at' + sizeofTlv) bytes
  | none => m.write at' p.tlv

def Hdr.put (d : Hdr) (i : Bool) (p : Put) : Hdr × Bool :=
  match ModelType.ofCode p.type with
  | none => (d, false)
  | some t =>
    let bk := d.bank i
    let cur := alignUp bk.used Arena.align
    if d.bankSize < (cur + p.need) % 2 ^ 64 then (d, false)
    else
      let slot : Slot := ⟨p.type, slotPresent, (d.bankOff i + cur + sizeofTlv) % 2 ^ 64, p.len.toNat, p.version, p.crc32⟩
      let bk := { bk with
        slot := Function.update bk.slot t slot
        used := (cur + p.need) % 2 ^ 64
        modelCount := bk.modelCount + 1 }
      ({ d.setBank i bk with mem := p.store d.mem (d.arena i + cur) }, true)

/-! ### Inside the arena -/

/-- The block begins at the old cursor or behind it and ends inside the arena. -/
def AllocInside (b : Bank) (size : UInt64) : Prop :=
  ∀ p b', b.arenaAlloc size.toNat = some (p, b') →
    ∃ o, p = b.base + o ∧ b.used ≤ o ∧ o + size.toNat ≤ b.size

/-- The same of the payload, whose offset counts from the start of the region. -/
def PutInside (d : Hdr) (i : Bool) (p : Put) : Prop :=
  (d.put i p).2 = true → ∃ t o, ModelType.ofCode p.type = some t ∧
    (((d.put i p).1.bank i).slot t).offset = (d.bankOff i + o) % 2 ^ 64 ∧
    (d.bank i).used ≤ o ∧ o + p.len.toNat ≤ d.bankSize

def allocEnd (b : Bank) (size : UInt64) : Nat := Arena.roundUp b.used + size.toNat

def putEnd (d : Hdr) (i : Bool) (p : Put) : Nat := Arena.roundUp (d.bank i).used + sizeofTlv + p.len.toNat

/-- The sum of 64-bit words is the true one, or is seen not to fit all the same. -/
def EndSeen (size end' : Nat) : Prop := end' < 2 ^ 64 ∨ size < end' % 2 ^ 64

instance (size end' : Nat) : Decidable (EndSeen size end') := inferInstanceAs (Decidable (_ ∨ _))

def Words (used size : Nat) : Prop := used < 2 ^ 64 ∧ size < 2 ^ 64

instance (used size : Nat) : Decidable (Words used size) := inferInstanceAs (Decidable (_ ∧ _))

theorem alignUp_word (x : Nat) : alignUp x Arena.align = Arena.roundUp x % 2 ^ 64 := by
  unfold alignUp Arena.align Arena.roundUp
  omega

theorem roundUp_word {x : Nat} (word : x < 2 ^ 64) :
    x ≤ Arena.roundUp x ∧ Arena.roundUp x < x + 64 ∧ Arena.roundUp x ≤ 2 ^ 64 ∧ Arena.roundUp x % 64 = 0 := by
  unfold Arena.roundUp
  omega

theorem alloc_inside_iff {b : Bank} {size : UInt64} (words : Words b.used b.size) :
    AllocInside b size ↔ b.base = 0 ∨ EndSeen b.size (allocEnd b size) := by
  obtain ⟨word, small⟩ := words
  obtain ⟨above, near, top, -⟩ := roundUp_word word
  have length := size.toNat_lt
  unfold AllocInside EndSeen allocEnd Bank.arenaAlloc Arena.alloc
  dsimp only
  rw [alignUp_word, Nat.mod_add_mod]
  by_cases unbound : b.base = 0
  · rw [if_pos (.inl unbound)]
    exact iff_of_true (fun p b' found => by cases found) (.inl unbound)
  · by_cases full : b.size < (Arena.roundUp b.used + size.toNat) % 2 ^ 64
    · rw [if_pos (.inr full)]
      exact iff_of_true (fun p b' found => by cases found) (.inr (.inr full))
    · rw [if_neg (not_or.mpr ⟨unbound, full⟩)]
      constructor
      · intro inside
        obtain ⟨o, place, behind, fits⟩ := inside _ _ rfl
        right
        left
        omega
      · intro seen p b' found
        cases found
        refine ⟨_, rfl, ?_, ?_⟩
        all_goals omega

theorem put_inside_iff {d : Hdr} {i : Bool} {p : Put} (words : Words (d.bank i).used d.bankSize) :
    PutInside d i p ↔ ModelType.ofCode p.type = none ∨ EndSeen d.bankSize (putEnd d i p) := by
  obtain ⟨word, small⟩ := words
  obtain ⟨above, near, top, line⟩ := roundUp_word word
  have length := p.len.toNat_lt
  have sum : (alignUp (d.bank i).used Arena.align + p.need) % 2 ^ 64 = putEnd d i p % 2 ^ 64 := by
    rw [alignUp_word, Put.need, putEnd, ← Nat.add_mod, Nat.add_assoc]
  cases type : ModelType.ofCode p.type with
  | none => exact iff_of_true (fun done => by simp [Hdr.put, type] at done) (.inl rfl)
  | some t =>
    by_cases full : d.bankSize < putEnd d i p % 2 ^ 64
    · have fails : d.put i p = (d, false) := by simp only [Hdr.put, type, sum, if_pos full]
      refine iff_of_true (fun done => ?_) (.inr (.inr full))
      rw [fails] at done
      cases done
    · have offset : (d.put i p).2 = true ∧ (((d.put i p).1.bank i).slot t).offset =
          (d.bankOff i + alignUp (d.bank i).used Arena.align + sizeofTlv) % 2 ^ 64 := by
        simp only [Hdr.put, type, sum, if_neg full, Hdr.setBank, Function.update_self, and_self]
      rw [alignUp_word, sizeofTlv] at offset
      unfold PutInside EndSeen
      simp only [type, offset, true_implies, Option.some.injEq, reduceCtorEq, false_or]
      unfold putEnd sizeofTlv at full ⊢
      constructor
      · rintro ⟨_, o, rfl, place, behind, fits⟩
        left
        omega
      · rintro seen
        refine ⟨t, Arena.roundUp (d.bank i).used + 24, rfl, ?_, ?_, ?_⟩
        all_goals omega

/-- A block leaves the arena exactly if the end of it wraps around to a place inside. -/
theorem arena_bounds_iff (b : Bank) (size : UInt64) (words : Words b.used b.size) (d : Hdr) (i : Bool) (p : Put)
    (words' : Words (d.bank i).used d.bankSize) :
    (AllocInside b size ↔ b.base = 0 ∨ EndSeen b.size (allocEnd b size)) ∧
    (PutInside d i p ↔ ModelType.ofCode p.type = none ∨ EndSeen d.bankSize (putEnd d i p)) :=
  ⟨alloc_inside_iff words, put_inside_iff words'⟩

/-- Bank 0 of a new region of 1024 bytes a bank, with 64 of them in use. -/
def usedRegion : Hdr :=
  let d := (dpmemReserve 4096 1024 fun _ => 0).bindBank false
  d.setBank false { d.bank false with used := 64 }

def fourBytes : Put := ⟨0, some [1, 2, 3, 4], 4, 1, 0, by simp⟩

theorem fourBytes_inside : AllocInside (usedRegion.bank false) 64 ∧ PutInside usedRegion false fourBytes := by
  obtain ⟨alloc, put⟩ := arena_bounds_iff (usedRegion.bank false) 64 (by decide) usedRegion false fourBytes (by decide)
  exact ⟨alloc.mpr (.inr (.inl (by decide))), put.mpr (.inr (.inl (by decide)))⟩

/-- Room for 2^64 - 24 bytes, which makes 0 with the header of the record. -/
def hugeRoom : Put := ⟨0, none, 0xFFFFFFFFFFFFFFE8, 1, 0, by simp⟩

theorem huge_blocks_succeed : ¬AllocInside (usedRegion.bank false) 0xFFFFFFFFFFFFFFC0 ∧ ¬PutInside usedRegion false hugeRoom := by
  constructor
  · rw [alloc_inside_iff (by decide)]
    decide
  · rw [put_inside_iff (by decide)]
    decide

end FfnNgfw.Dpmem

/-!
## The slot directory

Any sequence of `ffn_dpmem_bank_reset`, `ffn_dpmem_bank_put` and `ffn_dpmem_bank_clone` on
the two banks of a region. A payload lies behind the cursor that the record found, so no
later record touches it. `model_count` counts calls: a second model of one type takes over
the slot of the first and is counted again.
-/

namespace FfnNgfw.Dpmem
open Mem

def Slot.cleared (s : Slot) : Slot := { s with flags := 0, size := 0, offset := 0, version := 0, crc32 := 0 }

def Hdr.bankReset (d : Hdr) (i : Bool) : Hdr :=
  let bk := d.bank i
  d.setBank i { bk with seq := bk.seq + 1, used := 0, modelCount := 0, slot := fun t => (bk.slot t).cleared }

inductive DirCall where
  | reset (bank : UInt32)
  | put (bank : UInt32) (p : Put)
  | clone (dst src : UInt32)

structure Kept where
  hdr : Hdr
  last : Bool → ModelType → Option Put

def Kept.stored (k : Kept) (i : Bool) (p : Put) : Bool → ModelType → Option Put :=
  match ModelType.ofCode p.type with
  | some t => Function.update k.last i (Function.update (k.last i) t (some p))
  | none => k.last

def Kept.exec (k : Kept) : DirCall → Kept
  | .reset bank => ⟨k.hdr.bankReset (bankIx bank), Function.update k.last (bankIx bank) fun _ => none⟩
  | .put bank p =>
    let (d, done) := k.hdr.put (bankIx bank) p
    ⟨d, if done then k.stored (bankIx bank) p else k.last⟩
  | .clone dst src =>
    ⟨k.hdr.bankClone (bankIx dst) (bankIx src), Function.update k.last (bankIx dst) (k.last (bankIx src))⟩

def Kept.run (k : Kept) (calls : List DirCall) : Kept := calls.foldl Kept.exec k

/-- The region as `dpmem_reserve` leaves it. -/
def Kept.reserved (addr bankSize : Nat) (mem : Mem) : Kept := ⟨dpmemReserve addr bankSize mem, fun _ _ => none⟩

def Slot.Present (s : Slot) : Prop := s.flags &&& slotPresent ≠ 0

instance (s : Slot) : Decidable s.Present := inferInstanceAs (Decidable (_ ≠ _))

def Bank.presentCount (b : Bank) : Nat := ModelType.all.countP fun t => (b.slot t).Present

/-- The directory of bank `i`. -/
structure Kept.Directory (k : Kept) (i : Bool) : Prop where
  count : (k.hdr.bank i).modelCount.toNat = (k.hdr.bank i).presentCount
  inside : ∀ t, ((k.hdr.bank i).slot t).Present → k.hdr.bankOff i ≤ ((k.hdr.bank i).slot t).offset ∧
    ((k.hdr.bank i).slot t).offset + ((k.hdr.bank i).slot t).size ≤ k.hdr.bankOff i + k.hdr.bankSize
  holds : ∀ t, ((k.hdr.bank i).slot t).Present → ∃ p, k.last i t = some p ∧ ((k.hdr.bank i).slot t).size = p.len.toNat ∧
    ∀ bytes ∈ p.src, At k.hdr.mem (k.hdr.addr + ((k.hdr.bank i).slot t).offset) bytes
  apart : ∀ t t', t ≠ t' → ((k.hdr.bank i).slot t).Present → ((k.hdr.bank i).slot t').Present →
    ((k.hdr.bank i).slot t).offset + ((k.hdr.bank i).slot t).size ≤ ((k.hdr.bank i).slot t').offset ∨
    ((k.hdr.bank i).slot t').offset + ((k.hdr.bank i).slot t').size ≤ ((k.hdr.bank i).slot t).offset

/-- Both directories, and a call of `ffn_dpmem_bank_put` that returns -1 changes nothing. -/
structure Kept.Sound (k : Kept) : Prop where
  directory : ∀ i, k.Directory i
  refused : ∀ i p, (k.hdr.put i p).2 = false → (k.hdr.put i p).1 = k.hdr

/-- A model that fits has a type that the bank does not hold yet, and the end of the record
is not lost in the sum of its parts. -/
def Kept.Fresh (k : Kept) : DirCall → Prop
  | .put bank p =>
    EndSeen k.hdr.bankSize (putEnd k.hdr (bankIx bank) p) ∧
      (putEnd k.hdr (bankIx bank) p ≤ k.hdr.bankSize → ∀ t, ModelType.ofCode p.type = some t →
        ¬((k.hdr.bank (bankIx bank)).slot t).Present)
  | _ => True

def Kept.FreshRun (k : Kept) : List DirCall → Prop
  | [] => True
  | call :: calls => k.Fresh call ∧ (k.exec call).FreshRun calls

/-! ### One bank -/

/-- The directory of a bank whose arena is at `off` of the region at `addr`, with payloads
below the cursor. -/
structure Held (m : Mem) (addr off : Nat) (b : Bank) (last : ModelType → Option Put) : Prop where
  count : b.modelCount.toNat = b.presentCount
  below : ∀ t, (b.slot t).Present → off ≤ (b.slot t).offset ∧ (b.slot t).offset + (b.slot t).size ≤ off + b.used
  holds : ∀ t, (b.slot t).Present → ∃ p, last t = some p ∧ (b.slot t).size = p.len.toNat ∧
    ∀ bytes ∈ p.src, At m (addr + (b.slot t).offset) bytes
  apart : ∀ t t', t ≠ t' → (b.slot t).Present → (b.slot t').Present →
    (b.slot t).offset + (b.slot t).size ≤ (b.slot t').offset ∨ (b.slot t').offset + (b.slot t').size ≤ (b.slot t).offset

variable {m m' : Mem} {addr off : Nat} {b : Bank} {last : ModelType → Option Put} {d : Hdr} {i : Bool} {p : Put}

theorem Held.frame (h : Held m addr off b last) (same : ∀ o < b.used, m' (addr + off + o) = m (addr + off + o)) :
    Held m' addr off b last := by
  refine ⟨h.count, h.below, fun t present => ?_, h.apart⟩
  obtain ⟨p, put, size, bytes⟩ := h.holds t present
  obtain ⟨above, below⟩ := h.below t present
  refine ⟨p, put, size, fun bs member => at_congr (bytes bs member) fun j inside => ?_⟩
  have length := p.whole bs member
  have place : addr + (b.slot t).offset + j = addr + off + ((b.slot t).offset - off + j) := by omega
  rw [place]
  exact same _ (by omega)

theorem not_present_cleared (s : Slot) : ¬s.cleared.Present := by
  simp [Slot.Present, Slot.cleared]

theorem held_reset (m : Mem) (addr off : Nat) (b : Bank) :
    Held m addr off { b with seq := b.seq + 1, used := 0, modelCount := 0, slot := fun t => (b.slot t).cleared } fun _ => none := by
  refine ⟨?_, fun t present => ?_, fun t present => ?_, fun t _ _ present => ?_⟩
  · simp [Bank.presentCount, not_present_cleared]
  all_goals exact absurd present (not_present_cleared _)

theorem presentCount_update {t : ModelType} {slot : Slot} (absent : ¬(b.slot t).Present) (present : slot.Present) :
    ModelType.all.countP (fun t' => (Function.update b.slot t slot t').Present) = b.presentCount + 1 := by
  unfold Bank.presentCount ModelType.all
  cases t <;> simp [List.countP_cons, Function.update, absent, present] <;> omega

theorem presentCount_le (b : Bank) : b.presentCount ≤ 5 := List.countP_le_length

theorem store_outside {at' a : Nat} (outside : a < at' ∨ at' + sizeofTlv + p.len.toNat ≤ a) : p.store m at' a = m a := by
  have header : p.tlv.length = sizeofTlv := by simp [Put.tlv, le32, le64, sizeofTlv]
  have before : m.write at' p.tlv a = m a := write_outside _ _ _ (by rw [header]; omega)
  unfold Put.store
  cases source : p.src with
  | some bytes => exact (write_outside _ _ _ (by rw [p.whole bytes source]; omega)).trans before
  | none => exact before

theorem store_bytes {at' : Nat} : ∀ bytes ∈ p.src, At (p.store m at') (at' + sizeofTlv) bytes := by
  intro bytes member
  rw [Put.store, Option.mem_def.mp member]
  exact at_write _ _ _

/-- The bank with a new record at `cur` of its arena. -/
def Bank.recorded (b : Bank) (t : ModelType) (off cur : Nat) (p : Put) : Bank :=
  { b with
    slot := Function.update b.slot t ⟨p.type, slotPresent, off + cur + sizeofTlv, p.len.toNat, p.version, p.crc32⟩
    used := cur + sizeofTlv + p.len.toNat
    modelCount := b.modelCount + 1 }

theorem Held.put {t : ModelType} {cur : Nat} (h : Held m addr off b last) (absent : ¬(b.slot t).Present) (behind : b.used ≤ cur) :
    Held (p.store m (addr + off + cur)) addr off (b.recorded t off cur p) (Function.update last t (some p)) := by
  have present : (⟨p.type, slotPresent, off + cur + sizeofTlv, p.len.toNat, p.version, p.crc32⟩ : Slot).Present := by
    change slotPresent &&& slotPresent ≠ 0
    decide
  have old : Held (p.store m (addr + off + cur)) addr off b last :=
    h.frame fun o inside => store_outside (.inl (by omega))
  unfold Bank.recorded
  refine ⟨?_, fun t' => ?_, fun t' => ?_, fun t₁ t₂ ne => ?_⟩
  · have few := presentCount_le b
    have counted := h.count
    have counts : (b.modelCount + 1).toNat = b.modelCount.toNat + 1 := by
      rw [UInt32.toNat_add, UInt32.toNat_one, Nat.mod_eq_of_lt (by omega)]
    exact counts.trans ((congrArg (· + 1) counted).trans (presentCount_update absent present).symm)
  · by_cases same : t' = t
    · subst same
      simp only [Function.update_self]
      omega
    · simp only [Function.update_of_ne same]
      intro there
      have := old.below t' there
      omega
  · by_cases same : t' = t
    · subst same
      simp only [Function.update_self]
      refine fun _ => ⟨p, rfl, rfl, ?_⟩
      rw [← Nat.add_assoc, ← Nat.add_assoc]
      exact store_bytes
    · simp only [Function.update_of_ne same]
      exact old.holds t'
  · by_cases first : t₁ = t
    · subst first
      simp only [Function.update_self, Function.update_of_ne (Ne.symm ne)]
      intro _ there
      have := old.below t₂ there
      omega
    · by_cases second : t₂ = t
      · subst second
        simp only [Function.update_self, Function.update_of_ne first]
        intro there _
        have := old.below t₁ there
        omega
      · simp only [Function.update_of_ne first, Function.update_of_ne second]
        exact old.apart t₁ t₂ ne

theorem present_cloneSlot (dst src : Bool) (s : Slot) : (d.cloneSlot dst src s).Present ↔ s.Present := by
  unfold Hdr.cloneSlot
  split <;> rfl

theorem cloneSlot_size (dst src : Bool) (s : Slot) : (d.cloneSlot dst src s).size = s.size := by
  unfold Hdr.cloneSlot
  split <;> rfl

theorem Hdr.Wf.shift_offset (wf : d.Wf) (dst src : Bool) {o : Nat} (inside : o ≤ d.bankSize) :
    d.shift dst src (d.bankOff src + o) = d.bankOff dst + o := by
  have placed := wf.placed
  have mappedSrc := wf.arena_mapped src
  have mappedDst := wf.arena_mapped dst
  unfold Hdr.shift
  unfold Hdr.arena at mappedSrc mappedDst
  omega

theorem Held.clone {dst src : Bool} (wf : d.Wf) (h : Held d.mem d.addr (d.bankOff src) (d.bank src) last) :
    Held (d.mem.copy (d.arena dst) (d.arena src) (d.bank src).used) d.addr (d.bankOff dst) (d.cloneBank dst src) last := by
  have used := wf.used src
  have offset : ∀ t, ((d.bank src).slot t).Present → ∃ o, ((d.bank src).slot t).offset = d.bankOff src + o ∧
      o + ((d.bank src).slot t).size ≤ (d.bank src).used ∧
      (d.cloneSlot dst src ((d.bank src).slot t)).offset = d.bankOff dst + o := by
    intro t present
    obtain ⟨above, below⟩ := h.below t present
    obtain ⟨o, place⟩ := Nat.exists_eq_add_of_le above
    refine ⟨o, place, by omega, ?_⟩
    have shifted : d.cloneSlot dst src ((d.bank src).slot t) =
        { (d.bank src).slot t with offset := d.shift dst src ((d.bank src).slot t).offset } := if_pos present
    rw [shifted, place]
    exact wf.shift_offset dst src (by omega)
  have slots : ∀ t, (d.cloneBank dst src).slot t = d.cloneSlot dst src ((d.bank src).slot t) := fun _ => rfl
  refine ⟨?_, fun t => ?_, fun t => ?_, fun t t' ne => ?_⟩
  · refine h.count.trans ?_
    simp only [Bank.presentCount, slots, present_cloneSlot]
  · rw [slots, present_cloneSlot, cloneSlot_size]
    intro present
    obtain ⟨o, -, inside, place⟩ := offset t present
    rw [place]
    exact ⟨Nat.le_add_right _ _, by change _ ≤ _ + (d.bank src).used; omega⟩
  · rw [slots, present_cloneSlot, cloneSlot_size]
    intro present
    obtain ⟨o, origin, inside, place⟩ := offset t present
    obtain ⟨p, put, size, bytes⟩ := h.holds t present
    refine ⟨p, put, size, fun bs member => at_congr (bytes bs member) fun j byte => ?_⟩
    have length := p.whole bs member
    rw [place, origin, ← Nat.add_assoc, ← Nat.add_assoc, Nat.add_assoc _ o j, Nat.add_assoc _ o j]
    exact copy_inside _ _ _ _ (by omega)
  · rw [slots, slots, present_cloneSlot, present_cloneSlot, cloneSlot_size, cloneSlot_size]
    intro present present'
    obtain ⟨o, origin, -, place⟩ := offset t present
    obtain ⟨o', origin', -, place'⟩ := offset t' present'
    have apart := h.apart t t' ne present present'
    omega

/-! ### Both banks -/

structure Kept.Inv (k : Kept) : Prop where
  wf : k.hdr.Wf
  held : ∀ i, Held k.hdr.mem k.hdr.addr (k.hdr.bankOff i) (k.hdr.bank i) (k.last i)

variable {k : Kept}

theorem zero_held (m : Mem) (addr off : Nat) : Held m addr off Bank.zero fun _ => none := by
  have absent : ∀ t, ¬(Bank.zero.slot t).Present := fun t => by
    change ¬((0 : UInt32) &&& slotPresent ≠ 0)
    decide
  refine ⟨by decide, fun t present => ?_, fun t present => ?_, fun t t' _ present => ?_⟩
  all_goals exact absurd present (absent t)

theorem reserved_inv {bankSize : Nat} (mem : Mem) (placed : 0 < addr) (mapped : addr + (hdrSize + bankSize) + bankSize ≤ 2 ^ 64) :
    (Kept.reserved addr bankSize mem).Inv :=
  ⟨reserve_wf mem placed mapped, fun _ => zero_held _ _ _⟩

theorem Kept.Inv.replace (inv : k.Inv) {b : Bank} {m : Mem} {last : ModelType → Option Put} (used : b.used ≤ k.hdr.bankSize)
    (frame : ∀ a, a < k.hdr.arena i ∨ k.hdr.arena i + k.hdr.bankSize ≤ a → m a = k.hdr.mem a)
    (held : Held m k.hdr.addr (k.hdr.bankOff i) b last) :
    Kept.Inv ⟨{ k.hdr.setBank i b with mem := m }, Function.update k.last i last⟩ := by
  have wf := setBank_wf (i := i) inv.wf used
  refine ⟨⟨wf.placed, wf.order, wf.mapped, wf.used, wf.numbered⟩, fun j => ?_⟩
  dsimp only [Hdr.setBank]
  by_cases same : j = i
  · subst same
    rw [Function.update_self, Function.update_self]
    exact held
  · rw [Function.update_of_ne same, Function.update_of_ne same]
    obtain rfl : j = !i := by cases i <;> cases j <;> simp_all
    refine (inv.held (!i)).frame fun o inside => frame _ ?_
    have below := inv.wf.used (!i)
    have apart := inv.wf.apart i
    unfold Hdr.arena at apart ⊢
    omega

theorem put_cases (wf : d.Wf) (seen : EndSeen d.bankSize (putEnd d i p)) :
    d.put i p = (d, false) ∨
    ∃ t cur, ModelType.ofCode p.type = some t ∧ (d.bank i).used ≤ cur ∧ cur + sizeofTlv + p.len.toNat = putEnd d i p ∧
      putEnd d i p ≤ d.bankSize ∧
      d.put i p = ({ d.setBank i ((d.bank i).recorded t (d.bankOff i) cur p) with
        mem := p.store d.mem (d.arena i + cur) }, true) := by
  have used := wf.used i
  have small := wf.bankSize_lt
  have mapped := wf.arena_mapped i
  have placed := wf.placed
  obtain ⟨above, near, top, -⟩ := roundUp_word (x := (d.bank i).used) (by omega)
  have cursor : alignUp (d.bank i).used Arena.align = Arena.roundUp (d.bank i).used := Arena.alignUp_eq_roundUp (by omega)
  have sum : (Arena.roundUp (d.bank i).used + p.need) % 2 ^ 64 = putEnd d i p % 2 ^ 64 := by
    rw [Put.need, putEnd, Nat.add_mod_mod, Nat.add_assoc]
  unfold Hdr.put
  cases type : ModelType.ofCode p.type with
  | none => exact .inl rfl
  | some t =>
    dsimp only
    rw [cursor, sum]
    by_cases full : d.bankSize < putEnd d i p % 2 ^ 64
    · rw [if_pos full]
      exact .inl rfl
    · rw [if_neg full]
      have whole : putEnd d i p % 2 ^ 64 = putEnd d i p := by
        rcases seen with true' | larger
        · exact Nat.mod_eq_of_lt true'
        · exact absurd larger full
      rw [whole] at full ⊢
      unfold Hdr.arena at mapped
      refine .inr ⟨t, _, rfl, above, rfl, Nat.not_lt.mp full, ?_⟩
      have offset : (d.bankOff i + Arena.roundUp (d.bank i).used + sizeofTlv) % 2 ^ 64 =
          d.bankOff i + Arena.roundUp (d.bank i).used + sizeofTlv := by
        apply Nat.mod_eq_of_lt
        unfold putEnd at full
        omega
      rw [offset]
      rfl

theorem exec_inv (inv : k.Inv) {call : DirCall} (fresh : k.Fresh call) : (k.exec call).Inv := by
  cases call with
  | reset bank => exact inv.replace (Nat.zero_le _) (fun _ _ => rfl) (held_reset _ _ _ _)
  | put bank p =>
    obtain ⟨seen, unused⟩ := fresh
    rcases put_cases inv.wf seen with refused | ⟨t, cur, type, behind, ends, fits, stored⟩
    · simp only [Kept.exec, refused, Bool.false_eq_true, if_false]
      exact inv
    · simp only [Kept.exec, stored, if_true, Kept.stored, type]
      refine inv.replace (Nat.le_trans (Nat.le_of_eq ends) fits) (fun a outside => store_outside ?_)
        ((inv.held _).put (unused fits t type) behind)
      omega
  | clone dst src =>
    have used := inv.wf.used (bankIx src)
    exact inv.replace used (fun a outside => copy_outside _ _ _ _ (by omega)) ((inv.held _).clone inv.wf)

theorem run_inv (inv : k.Inv) {calls : List DirCall} (fresh : k.FreshRun calls) : (k.run calls).Inv := by
  induction calls generalizing k with
  | nil => exact inv
  | cons call calls ih => exact ih (exec_inv inv fresh.1) fresh.2

theorem Kept.Inv.sound (inv : k.Inv) : k.Sound := by
  refine ⟨fun i => ?_, fun i p refused => ?_⟩
  · have held := inv.held i
    have used := inv.wf.used i
    refine ⟨held.count, fun t present => ?_, held.holds, held.apart⟩
    have below := held.below t present
    omega
  · revert refused
    unfold Hdr.put
    cases ModelType.ofCode p.type with
    | none => exact fun _ => rfl
    | some t =>
      dsimp only
      split
      · exact fun _ => rfl
      · intro refused
        cases refused

theorem freshRun_before {before after : List DirCall} (fresh : k.FreshRun (before ++ after)) : k.FreshRun before := by
  induction before generalizing k with
  | nil => trivial
  | cons call before ih => exact ⟨fresh.1, ih fresh.2⟩

/-- As long as every model that fits has a type that its bank does not hold, and no length
wraps around, the directory is right after every call. -/
theorem directory_sound (addr bankSize : Nat) (mem : Mem) (placed : 0 < addr)
    (mapped : addr + (hdrSize + bankSize) + bankSize ≤ 2 ^ 64) (calls : List DirCall)
    (fresh : (Kept.reserved addr bankSize mem).FreshRun calls) (before after : List DirCall) (reached : calls = before ++ after) :
    ((Kept.reserved addr bankSize mem).run before).Sound := by
  subst reached
  exact (run_inv (reserved_inv mem placed mapped) (freshRun_before fresh)).sound

theorem one_model_sound : ((Kept.reserved 4096 1024 fun _ => 0).run [.put 0 fourBytes, .clone 1 0]).Sound := by
  refine directory_sound 4096 1024 _ (by decide) (by decide) [.put 0 fourBytes, .clone 1 0] ?_ _ [] rfl
  refine ⟨⟨.inl (by decide), fun _ t _ => ?_⟩, trivial, trivial⟩
  cases t <;> decide

/-- The same model twice: two models by the count, one slot. -/
theorem same_type_counted_twice : ¬((Kept.reserved 4096 1024 fun _ => 0).run [.put 0 fourBytes, .put 0 fourBytes]).Sound := by
  intro sound
  exact absurd (sound.directory false).count (by decide +kernel)

end FfnNgfw.Dpmem
