import FfnNgfw.Compile.Compiler
import FfnNgfw.Lib.Bytes
import FfnNgfw.Lib.OpenTable
import FfnNgfw.Portable.Image
import Mathlib.Data.Finset.Card
import Mathlib.Data.Nat.Bitwise

/-!
# The table of file hashes

`_pack_avhash` puts the digests into an open-addressed table of at least twice as many
slots and writes it out, a free slot as a record of zeros. A digest is looked up along its
slots up to the first one whose digest is all zero. The loops take a bound on their rounds
here, and have no result when they are not over within it.
-/

namespace FfnNgfw.Compile
open Antivirus (asciiUnicode)
open Portable (hdrBytes)

/-! ### `_pack_avhash` -/

/-- `while slots < target: slots <<= 1` -/
def growIn (target : Nat) : Nat → Nat → Option Nat
  | 0, slots => if slots < target then none else some slots
  | fuel + 1, slots => if slots < target then growIn target fuel (slots * 2) else some slots

def low64 (digest : List UInt8) : Nat := ByteOrder.little.fromBytes (digest.take 8)

abbrev Slots := Nat → Option AvHash

/-- The first slot from `bucket` on that is free. -/
def placeIn (table : Slots) (mask : Nat) : Nat → Nat → Option Nat
  | 0, bucket => if (table bucket).isSome then none else some bucket
  | fuel + 1, bucket => if (table bucket).isSome then placeIn table mask fuel ((bucket + 1) &&& mask) else some bucket

def insertIn (fuel slots : Nat) (table : Slots) (e : AvHash) : Option Slots :=
  (placeIn table (slots - 1) fuel (low64 e.digest &&& (slots - 1))).map fun bucket => Function.update table bucket (some e)

def tableIn (fuel : Nat) (avhash : List AvHash) : Option (Nat × Slots) := do
  let slots ← growIn (max (avhash.length * 2) 8) fuel 1
  let table ← avhash.foldlM (insertIn fuel slots) fun _ => none
  return (slots, table)

def avhashSize : Nat := 40

/-- A slot in the format `<32sIBBH`; a number that does not fit its field raises. -/
def packSlot : Option AvHash → Option (List UInt8)
  | none => some (List.replicate avhashSize 0)
  | some e =>
    if (0 ≤ e.size ∧ e.size < 2 ^ 32) ∧ (0 ≤ e.action ∧ e.action < 2 ^ 8) ∧ e.severity < 2 ^ 8 ∧ e.nameIdx < 2 ^ 16 then
      some (e.digest ++ le32 (UInt32.ofNat e.size.toNat) ++ [UInt8.ofNat e.action.toNat, UInt8.ofNat e.severity] ++
        le16 (UInt16.ofNat e.nameIdx))
    else none

def fpMagicAvhash : List UInt8 := [0x46, 0x50, 0x50, 0x48]

/-- The file; `now` and `crc32` stand for the time and the checksum. -/
def packAvhash (now : UInt64) (crc32 : List UInt8 → UInt32) (n : Nat) (t : Nat × Slots) : Option (List UInt8) := do
  let records ← (List.range t.1).mapM fun i => packSlot (t.2 i)
  guard (t.1 < 2 ^ 32)
  return hdrBytes fpMagicAvhash 0x42 (UInt32.ofNat t.1) now (crc32 records.flatten) 40 (UInt32.ofNat n) ++ records.flatten

def zeroDigest : List UInt8 := List.replicate 32 0

def probeLoop (raw digest : List UInt8) (mask : Nat) : Nat → Nat → Bool
  | 0, _ => false
  | n + 1, bucket =>
    let rh := slice raw (36 + bucket * avhashSize) 32
    if rh = zeroDigest then false
    else if rh = digest then true
    else probeLoop raw digest mask n ((bucket + 1) &&& mask)

def probeAvhash (raw digest : List UInt8) : Bool :=
  let slots := ByteOrder.little.fromBytes (slice raw 8 4)
  probeLoop raw digest (slots - 1) slots (low64 digest &&& (slots - 1))

theorem growIn_pow {target fuel k : Nat} (enough : target ≤ 2 ^ (k + fuel)) :
    ∃ m, growIn target fuel (2 ^ k) = some (2 ^ m) ∧ target ≤ 2 ^ m ∧ (m = k ∨ 2 ^ m < 2 * target) := by
  induction fuel generalizing k with
  | zero => exact ⟨k, if_neg (Nat.not_lt.mpr enough), enough, .inl rfl⟩
  | succ fuel ih =>
    rw [growIn]
    by_cases small : 2 ^ k < target
    · rw [Nat.add_comm fuel 1, ← Nat.add_assoc] at enough
      obtain ⟨m, grown, reaches, near⟩ := ih enough
      rw [if_pos small, ← Nat.pow_succ]
      refine ⟨m, grown, reaches, .inr ?_⟩
      rcases near with rfl | near
      · rw [Nat.pow_succ]
        omega
      · exact near
    · exact ⟨k, if_neg small, Nat.not_lt.mp small, .inl rfl⟩

def avScheme (m : Nat) : Scheme (List UInt8) (Option AvHash) where
  used := Option.isSome
  key e := (e.map AvHash.digest).getD []
  slot k p := (low64 k + p) % 2 ^ m
  probes := 2 ^ m

theorem masked (m n : Nat) : n &&& (2 ^ m - 1) = n % 2 ^ m := Nat.and_two_pow_sub_one_eq_mod n m

theorem slot_zero (m : Nat) (k : List UInt8) : low64 k &&& (2 ^ m - 1) = (avScheme m).slot k 0 := masked m _

theorem slot_succ (m : Nat) (k : List UInt8) (p : Nat) : ((avScheme m).slot k p + 1) &&& (2 ^ m - 1) = (avScheme m).slot k (p + 1) := by
  show ((low64 k + p) % 2 ^ m + 1) &&& (2 ^ m - 1) = (low64 k + (p + 1)) % 2 ^ m
  rw [masked, Nat.mod_add_mod, Nat.add_assoc]

variable {table : Slots} {ents : List AvHash} {m fuel : Nat} {raw : List UInt8}

theorem placeIn_first {m p r : Nat} {k : List UInt8} (fuel : Nat) (free : table ((avScheme m).slot k r) = none) (first : p ≤ r)
    (last : r ≤ p + fuel) :
    ∃ q, p ≤ q ∧ q ≤ r ∧ placeIn table (2 ^ m - 1) fuel ((avScheme m).slot k p) = some ((avScheme m).slot k q) ∧
      table ((avScheme m).slot k q) = none ∧ ∀ q', p ≤ q' → q' < q → (table ((avScheme m).slot k q')).isSome = true := by
  induction fuel generalizing p with
  | zero =>
    obtain rfl : p = r := by omega
    refine ⟨p, Nat.le_refl p, Nat.le_refl p, ?_, free, fun q' above below => by omega⟩
    rw [placeIn, free]
    rfl
  | succ fuel ih =>
    rw [placeIn]
    cases here : table ((avScheme m).slot k p) with
    | none => exact ⟨p, Nat.le_refl p, first, rfl, here, fun q' above below => by omega⟩
    | some e =>
      have ahead : p ≠ r := by
        rintro rfl
        rw [here] at free
        cases free
      obtain ⟨q, above, below, placed, empty, path⟩ := ih (p := p + 1) (by omega) (by omega)
      refine ⟨q, by omega, below, ?_, empty, fun q' above' below' => ?_⟩
      · rw [slot_succ]
        exact placed
      · by_cases same : q' = p
        · rw [same, here]
          rfl
        · exact path q' (by omega) below'

/-- A table of `2 ^ m` slots that holds these digests. -/
structure Filled (m : Nat) (ents : List AvHash) (table : Slots) : Prop where
  reached : (avScheme m).Reached table
  inside : ∀ j, (table j).isSome = true → j < 2 ^ m
  holds : ∀ e, (∃ j, table j = some e) ↔ e ∈ ents
  few : ((Finset.range (2 ^ m)).filter fun j => (table j).isSome = true).card ≤ ents.length

theorem filled_nil (m : Nat) : Filled m [] fun _ => none where
  reached := fun j used => by cases used
  inside := fun j used => by cases used
  holds := fun e => by simp
  few := by simp

theorem Filled.free (filled : Filled m ents table) (room : ents.length < 2 ^ m) :
    ∃ j < 2 ^ m, table j = none := by
  by_contra none
  have all : ((Finset.range (2 ^ m)).filter fun j => (table j).isSome = true) = Finset.range (2 ^ m) := by
    apply Finset.filter_true_of_mem
    intro j inside
    cases here : table j with
    | none => exact absurd ⟨j, Finset.mem_range.mp inside, here⟩ none
    | some e => rfl
  have few := filled.few
  rw [all, Finset.card_range] at few
  omega

theorem Filled.insert (filled : Filled m ents table) (room : ents.length < 2 ^ m)
    (enough : 2 ^ m ≤ fuel) (e : AvHash) : ∃ table', insertIn fuel (2 ^ m) table e = some table' ∧ Filled m (ents ++ [e]) table' := by
  obtain ⟨j, inside, free⟩ := filled.free room
  obtain ⟨r, small, rfl⟩ := Scheme.wrap_reaches (low64 e.digest) inside
  obtain ⟨q, -, below, placed, empty, path⟩ := placeIn_first (m := m) (k := e.digest) fuel free (Nat.zero_le r) (by omega)
  have within : (avScheme m).slot e.digest q < 2 ^ m := Nat.mod_lt _ (Nat.two_pow_pos m)
  refine ⟨Function.update table ((avScheme m).slot e.digest q) (some e), ?_, ?_, ?_, ?_, ?_⟩
  · rw [insertIn, slot_zero, placed]
    rfl
  · apply filled.reached.insert (k := e.digest) (show q < 2 ^ m by omega) (fun q' below' => path q' (Nat.zero_le q') below')
    · rw [empty]
      rfl
    · rfl
  · intro j used
    by_cases here : j = (avScheme m).slot e.digest q
    · rw [here]
      exact within
    · rw [Function.update_of_ne here] at used
      exact filled.inside j used
  · intro e'
    rw [List.mem_append, List.mem_singleton, ← filled.holds]
    constructor
    · rintro ⟨j, here⟩
      by_cases same : j = (avScheme m).slot e.digest q
      · rw [same, Function.update_self] at here
        exact .inr (Option.some.inj here).symm
      · rw [Function.update_of_ne same] at here
        exact .inl ⟨j, here⟩
    · rintro (⟨j, here⟩ | rfl)
      · refine ⟨j, ?_⟩
        rw [Function.update_of_ne]
        · exact here
        · rintro rfl
          rw [empty] at here
          cases here
      · exact ⟨_, Function.update_self _ _ _⟩
  · have grows : ((Finset.range (2 ^ m)).filter fun j =>
        (Function.update table ((avScheme m).slot e.digest q) (some e) j).isSome = true) ⊆
        Insert.insert ((avScheme m).slot e.digest q) ((Finset.range (2 ^ m)).filter fun j => (table j).isSome = true) := by
      intro j member
      rw [Finset.mem_filter] at member
      rw [Finset.mem_insert, Finset.mem_filter]
      by_cases same : j = (avScheme m).slot e.digest q
      · exact .inl same
      · rw [Function.update_of_ne same] at member
        exact .inr member
    have more := (Finset.card_le_card grows).trans (Finset.card_insert_le _ _)
    have few := filled.few
    rw [List.length_append, List.length_singleton]
    omega

theorem Filled.foldlM {before : List AvHash} (filled : Filled m before table) (ents : List AvHash)
    (room : before.length + ents.length ≤ 2 ^ m) (enough : 2 ^ m ≤ fuel) :
    ∃ table', ents.foldlM (insertIn fuel (2 ^ m)) table = some table' ∧ Filled m (before ++ ents) table' := by
  induction ents generalizing before table with
  | nil => exact ⟨table, rfl, by rwa [List.append_nil]⟩
  | cons e ents ih =>
    rw [List.length_cons] at room
    obtain ⟨next, inserted, filled⟩ := filled.insert (by omega) enough e
    obtain ⟨last, folded, filled⟩ := ih filled (by rw [List.length_append, List.length_singleton]; omega)
    refine ⟨last, ?_, by rwa [List.append_assoc] at filled⟩
    rw [List.foldlM_cons, inserted]
    exact folded

theorem tableIn_filled (enough : 2 * max (ents.length * 2) 8 ≤ fuel) :
    ∃ m table, tableIn fuel ents = some (2 ^ m, table) ∧ Filled m ents table := by
  have target : max (ents.length * 2) 8 ≤ 2 ^ (0 + fuel) := by
    have large : 0 + fuel < 2 ^ (0 + fuel) := Nat.lt_two_pow_self
    omega
  obtain ⟨m, grown, reaches, near⟩ := growIn_pow target
  have slots : 2 ^ m ≤ fuel := by
    rcases near with rfl | near <;> omega
  obtain ⟨table, folded, filled⟩ := (filled_nil m).foldlM ents (by rw [List.length_nil]; omega) slots
  refine ⟨m, table, ?_, filled⟩
  unfold tableIn
  rw [show (1 : Nat) = 2 ^ 0 from rfl, grown]
  show (ents.foldlM (insertIn fuel (2 ^ m)) fun _ => none).bind _ = _
  rw [folded]
  rfl

def slotDigest (slot : Option AvHash) : List UInt8 := (slot.map AvHash.digest).getD zeroDigest

theorem packSlot_digest {slot : Option AvHash} {record : List UInt8} (packed : packSlot slot = some record) :
    record.length = avhashSize ∧ record.take 32 = slotDigest slot := by
  cases slot with
  | none =>
    obtain rfl := Option.some.inj packed
    exact ⟨rfl, rfl⟩
  | some e =>
    rw [packSlot] at packed
    split at packed
    · obtain rfl := Option.some.inj packed
      refine ⟨by simp [le16, le32, avhashSize, e.whole], ?_⟩
      rw [List.append_assoc, List.append_assoc]
      exact List.take_left' e.whole
    · cases packed

theorem slice_record {records : List (List UInt8)} {front record : List UInt8} {i width size : Nat}
    (each : ∀ r ∈ records, r.length = width) (here : records[i]? = some record) (small : size ≤ width) :
    slice (front ++ records.flatten) (front.length + i * width) size = record.take size := by
  induction records generalizing front i with
  | nil => cases here
  | cons r records ih =>
    have wide := each r List.mem_cons_self
    cases i with
    | zero =>
      obtain rfl : r = record := Option.some.inj here
      unfold slice
      rw [Nat.zero_mul, Nat.add_zero, List.drop_left, List.flatten_cons, List.take_append_of_le_length (by omega)]
    | succ i =>
      have next : slice (front ++ r ++ records.flatten) ((front ++ r).length + i * width) size = record.take size :=
        ih (fun r' member => each r' (List.mem_cons_of_mem r member)) here
      rw [List.append_assoc, List.length_append, wide] at next
      rw [List.flatten_cons, Nat.succ_mul, ← next]
      congr 1
      omega

theorem mapM_getElem {α β : Type} {f : α → Option β} {xs : List α} {ys : List β} (mapped : xs.mapM f = some ys) {i : Nat} {x : α}
    (here : xs[i]? = some x) : ∃ y, f x = some y ∧ ys[i]? = some y := by
  induction xs generalizing ys i with
  | nil => cases here
  | cons x' xs ih =>
    rw [List.mapM_cons] at mapped
    obtain ⟨y, first, rest⟩ := Option.bind_eq_some_iff.mp mapped
    obtain ⟨ys', others, made⟩ := Option.bind_eq_some_iff.mp rest
    obtain rfl := Option.some.inj made
    cases i with
    | zero =>
      obtain rfl : x' = x := Option.some.inj here
      exact ⟨y, first, rfl⟩
    | succ i => exact ih others here

theorem mapM_mem_back {α β : Type} {f : α → Option β} {xs : List α} {ys : List β} (mapped : xs.mapM f = some ys) {y : β}
    (member : y ∈ ys) : ∃ x, f x = some y := by
  induction xs generalizing ys with
  | nil =>
    obtain rfl : ys = [] := (Option.some.inj mapped).symm
    cases member
  | cons x' xs ih =>
    rw [List.mapM_cons] at mapped
    obtain ⟨y', first, rest⟩ := Option.bind_eq_some_iff.mp mapped
    obtain ⟨ys', others, made⟩ := Option.bind_eq_some_iff.mp rest
    obtain rfl := Option.some.inj made
    rcases List.mem_cons.mp member with rfl | later
    · exact ⟨x', first⟩
    · exact ih others later

theorem fromBytes_le32 (v : UInt32) : ByteOrder.little.fromBytes (le32 v) = v.toNat := by
  have bound := v.toNat_lt
  simp [ByteOrder.fromBytes, ByteOrder.arrange, le32, Nat.ofDigits, Nat.shiftRight_eq_div_pow]
  omega

theorem hdrBytes_length (magic : List UInt8) (four : magic.length = 4) (type : UInt16) (n : UInt32) (ts : UInt64)
    (crc recordSize populated : UInt32) : (hdrBytes magic type n ts crc recordSize populated).length = 36 := by
  simp [hdrBytes, four, le16, le32, le64]

theorem packAvhash_reads {now : UInt64} {crc32 : List UInt8 → UInt32} {n slots : Nat}
    (packed : packAvhash now crc32 n (slots, table) = some raw) :
    ByteOrder.little.fromBytes (slice raw 8 4) = slots ∧
      ∀ bucket < slots, slice raw (36 + bucket * avhashSize) 32 = slotDigest (table bucket) := by
  obtain ⟨records, mapped, rest⟩ := Option.bind_eq_some_iff.mp packed
  obtain ⟨_, fits, made⟩ := Option.bind_eq_some_iff.mp rest
  obtain rfl := Option.some.inj made
  have small : slots < 2 ^ 32 := by simpa [guard] using fits
  constructor
  · have count : slice (hdrBytes fpMagicAvhash 0x42 (UInt32.ofNat slots) now (crc32 records.flatten) 40 (UInt32.ofNat n) ++
        records.flatten) 8 4 = le32 (UInt32.ofNat slots) := rfl
    rw [count, fromBytes_le32]
    exact Nat.mod_eq_of_lt small
  · intro bucket inside
    have width : ∀ r ∈ records, r.length = avhashSize := by
      intro r member
      obtain ⟨x, made⟩ := mapM_mem_back mapped member
      exact (packSlot_digest made).1
    obtain ⟨record, made, here⟩ := mapM_getElem mapped (List.getElem?_range inside)
    rw [← (packSlot_digest made).2]
    rw [← hdrBytes_length fpMagicAvhash rfl 0x42 (UInt32.ofNat slots) now (crc32 records.flatten) 40 (UInt32.ofNat n)]
    exact slice_record width here (by decide)

theorem digest_within (m p : Nat) (k : List UInt8) : (avScheme m).slot k p < 2 ^ m := Nat.mod_lt _ (Nat.two_pow_pos m)

theorem probeLoop_zero (raw : List UInt8) (mask n bucket : Nat) : probeLoop raw zeroDigest mask n bucket = false := by
  induction n generalizing bucket with
  | zero => rfl
  | succ n ih =>
    rw [probeLoop]
    split
    · rfl
    · exact ih _

theorem probeLoop_hit {m n p : Nat} {raw digest : List UInt8}
    (reads : ∀ bucket < 2 ^ m, slice raw (36 + bucket * avhashSize) 32 = slotDigest (table bucket))
    (solid : ∀ j e, table j = some e → e.digest ≠ zeroDigest) :
    probeLoop raw digest (2 ^ m - 1) n ((avScheme m).slot digest p) = true ↔ ∃ i, (avScheme m).probeFrom table digest n p = .hit i := by
  induction n generalizing p with
  | zero => simp [probeLoop, Scheme.probeFrom]
  | succ n ih =>
    rw [probeLoop, Scheme.probeFrom, reads _ (digest_within m p digest), slot_succ]
    cases here : table ((avScheme m).slot digest p) with
    | none =>
      have left : slotDigest none = zeroDigest := rfl
      have right : (avScheme m).used none = false := rfl
      rw [if_pos left, if_pos right]
      simp
    | some e =>
      have left : slotDigest (some e) = e.digest := rfl
      have right : (avScheme m).used (some e) = true := rfl
      have key : (avScheme m).key (some e) = e.digest := rfl
      rw [left, right, key, if_neg (solid _ e here), if_neg Bool.true_eq_false.mp]
      by_cases same : e.digest = digest
      · rw [if_pos same, if_pos same]
        simp
      · rw [if_neg same, if_neg same]
        exact ih

theorem Filled.probe_iff (filled : Filled m ents table) (count : ByteOrder.little.fromBytes (slice raw 8 4) = 2 ^ m)
    (reads : ∀ bucket < 2 ^ m, slice raw (36 + bucket * avhashSize) 32 = slotDigest (table bucket))
    (solid : ∀ e ∈ ents, e.digest ≠ zeroDigest) (digest : List UInt8) :
    probeAvhash raw digest = true ↔ ∃ e ∈ ents, e.digest = digest := by
  have solid' : ∀ j e, table j = some e → e.digest ≠ zeroDigest := fun j e here => solid e ((filled.holds e).mp ⟨j, here⟩)
  unfold probeAvhash
  dsimp only
  rw [count, slot_zero, probeLoop_hit reads solid']
  refine Iff.trans filled.reached.hit_iff ?_
  constructor
  · rintro ⟨j, used, same⟩
    obtain ⟨e, here⟩ := Option.isSome_iff_exists.mp used
    rw [here] at same
    exact ⟨e, (filled.holds e).mp ⟨j, here⟩, same⟩
  · rintro ⟨e, member, same⟩
    obtain ⟨j, here⟩ := (filled.holds e).mpr member
    refine ⟨j, ?_, ?_⟩ <;> rw [here]
    · rfl
    · exact same

/-- The table is filled within finitely many rounds, and what is looked up in the file is found
exactly when it was put in, if and only if the digest of zeros is not among the digests. -/
theorem avhash_exact_iff (now : UInt64) (crc32 : List UInt8 → UInt32) (avhash : List AvHash) :
    ∃ enough, ∀ fuel ≥ enough, ∃ t, tableIn fuel avhash = some t ∧
      ∀ raw, packAvhash now crc32 avhash.length t = some raw →
        ((∀ digest, digest.length = 32 → (probeAvhash raw digest = true ↔ ∃ e ∈ avhash, e.digest = digest)) ↔
          ∀ e ∈ avhash, e.digest ≠ zeroDigest) := by
  refine ⟨2 * max (avhash.length * 2) 8, fun fuel enough => ?_⟩
  obtain ⟨m, table, made, filled⟩ := tableIn_filled enough
  refine ⟨(2 ^ m, table), made, fun raw packed => ?_⟩
  obtain ⟨count, reads⟩ := packAvhash_reads packed
  constructor
  · intro exact' e member zero
    have found := (exact' zeroDigest rfl).mpr ⟨e, member, zero⟩
    rw [probeAvhash, probeLoop_zero] at found
    cases found
  · intro solid digest _
    exact filled.probe_iff count reads solid digest

def zeroRow : AvRow where
  sigId := 1
  name := "zero".toList
  severity := "high".toList
  verdict := "malware".toList
  action := 1
  content := .hash "sha256".toList (List.replicate 64 '0') 0

def zeroHashes : List AvHash := (({} : Compiler).loadAvSignatures asciiUnicode [zeroRow]).1.avhash

theorem zero_digest_lost : zeroHashes.map AvHash.digest = [zeroDigest] ∧
    ∃ t raw, tableIn 16 zeroHashes = some t ∧ packAvhash 0 (fun _ => 0) zeroHashes.length t = some raw ∧
      probeAvhash raw zeroDigest = false :=
  ⟨by decide, _, _, rfl, rfl, probeLoop_zero _ _ _ _⟩

end FfnNgfw.Compile
