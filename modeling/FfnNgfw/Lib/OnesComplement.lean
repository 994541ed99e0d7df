import FfnNgfw.Lib.Digits

/-!
# Ones-complement checksums

The sum of the 16-bit words of some bytes, with the carries added at the other end. Data
are valid when the sum, with the checksum in its field, is a negative zero.
-/

namespace FfnNgfw.OnesComplement

def total (raw : List UInt8) : Nat := (unpackWords (raw ++ List.replicate (raw.length % 2) 0)).sum

/-- The carries are added until there are none, in so many rounds at most. -/
def carryLoop : Nat → Nat → Nat
  | 0, n => n
  | fuel + 1, n => if n >>> 16 = 0 then n else carryLoop fuel ((n &&& 65535) + (n >>> 16))

def fold (n : Nat) : Nat := carryLoop n n

def checksum (raw : List UInt8) : Nat := fold (total raw) ^^^ 65535

/-- `struct.pack_into('!H', raw, offset, value)` -/
def putWord (raw : List UInt8) (offset value : Nat) : List UInt8 :=
  raw.take offset ++ ByteOrder.big.toBytes 2 value ++ raw.drop (offset + 2)

def wordAt (raw : List UInt8) (offset : Nat) : Nat := ByteOrder.big.fromBytes (slice raw offset 2)

/-! ### Carries -/

theorem shift_word (n : Nat) : n >>> 16 = n / 65536 := Nat.shiftRight_eq_div_pow n 16

theorem mask_word (n : Nat) : n &&& 65535 = n % 65536 := Nat.and_two_pow_sub_one_eq_mod n 16

theorem carryLoop_spec {fuel n : Nat} (enough : n ≤ fuel) :
    carryLoop fuel n < 65536 ∧ carryLoop fuel n % 65535 = n % 65535 ∧ (carryLoop fuel n = 0 ↔ n = 0) := by
  induction fuel generalizing n with
  | zero =>
    obtain rfl : n = 0 := Nat.le_zero.mp enough
    decide
  | succ fuel ih =>
    unfold carryLoop
    split
    · rename_i small
      rw [shift_word] at small
      exact ⟨by omega, rfl, Iff.rfl⟩
    · rename_i carries
      rw [shift_word] at carries
      rw [shift_word, mask_word]
      obtain ⟨word, remainder, sign⟩ := ih (n := n % 65536 + n / 65536) (by omega)
      refine ⟨word, ?_, ?_⟩
      · rw [remainder]
        omega
      · rw [sign]
        omega

theorem fold_lt (n : Nat) : fold n < 65536 := (carryLoop_spec (Nat.le_refl n)).1

theorem fold_mod (n : Nat) : fold n % 65535 = n % 65535 := (carryLoop_spec (Nat.le_refl n)).2.1

theorem fold_eq_zero (n : Nat) : fold n = 0 ↔ n = 0 := (carryLoop_spec (Nat.le_refl n)).2.2

theorem checksum_eq (raw : List UInt8) : checksum raw = 65535 - fold (total raw) := by
  have word := fold_lt (total raw)
  have below : 65535 - fold (total raw) = 2 ^ 16 - (fold (total raw) + 1) := by omega
  have all : (65535 : Nat) = 2 ^ 16 - 1 := rfl
  unfold checksum
  rw [below, all]
  refine Nat.eq_of_testBit_eq fun i => ?_
  rw [Nat.testBit_xor, Nat.testBit_two_pow_sub_one, Nat.testBit_two_pow_sub_succ word]
  by_cases small : i < 16
  · simp [small]
  · have none' : (fold (total raw)).testBit i = false :=
      Nat.testBit_lt_two_pow (Nat.lt_of_lt_of_le word (Nat.pow_le_pow_right Nat.two_pos (Nat.not_lt.mp small)))
    simp [small, none']

theorem checksum_le (raw : List UInt8) : checksum raw ≤ 65535 := by
  rw [checksum_eq]
  exact Nat.sub_le _ _

theorem checksum_eq_zero {raw : List UInt8} : checksum raw = 0 ↔ total raw % 65535 = 0 ∧ total raw ≠ 0 := by
  have word := fold_lt (total raw)
  have remainder := fold_mod (total raw)
  have sign := fold_eq_zero (total raw)
  rw [checksum_eq]
  omega

theorem checksum_add_mod (raw : List UInt8) : (total raw + checksum raw) % 65535 = 0 := by
  have word := fold_lt (total raw)
  have remainder := fold_mod (total raw)
  rw [checksum_eq]
  omega

theorem checksum_lt {raw : List UInt8} (some' : total raw ≠ 0) : checksum raw < 65535 := by
  have sign := fold_eq_zero (total raw)
  rw [checksum_eq]
  omega

theorem total_even {raw : List UInt8} (even : raw.length % 2 = 0) : total raw = (unpackWords raw).sum := by
  unfold total
  rw [even, List.replicate_zero, List.append_nil]

theorem total_append {front : List UInt8} (even : front.length % 2 = 0) (rest : List UInt8) :
    total (front ++ rest) = total front + total rest := by
  have parity : (front ++ rest).length % 2 = rest.length % 2 := by
    rw [List.length_append]
    omega
  rw [total_even even]
  unfold total
  rw [parity, List.append_assoc, unpackWords_append even, List.sum_append]

theorem total_word {value : Nat} (small : value < 65536) : total (ByteOrder.big.toBytes 2 value) = value := by
  rw [total_even (by rw [ByteOrder.toBytes_length]), unpackWords_word small, List.sum_singleton]

theorem total_eq_zero {raw : List UInt8} : total raw = 0 ↔ ∀ b ∈ raw, b = 0 := by
  have words : ∀ raw : List UInt8, raw.length % 2 = 0 → ((unpackWords raw).sum = 0 ↔ ∀ b ∈ raw, b = 0) := by
    intro raw
    induction raw using unpackWords.induct with
    | case1 hi lo rest ih =>
      intro even
      simp only [List.length_cons] at even
      rw [unpackWords, List.sum_cons, List.forall_mem_cons, List.forall_mem_cons, ← ih (by omega), ← UInt8.toNat_inj, ← UInt8.toNat_inj]
      have zero : (0 : UInt8).toNat = 0 := rfl
      rw [zero]
      omega
    | case2 raw short =>
      intro even
      cases raw with
      | nil => simp [unpackWords]
      | cons hi rest =>
        cases rest with
        | nil => cases even
        | cons lo rest => exact absurd rfl (short hi lo rest)
  unfold total
  rw [words]
  · constructor
    · intro each b member
      exact each b (List.mem_append_left _ member)
    · intro each b member
      rcases List.mem_append.mp member with inside | pad
      · exact each b inside
      · exact (List.mem_replicate.mp pad).2
  · rw [List.length_append, List.length_replicate]
    omega

/-! ### Fields -/

section

variable {raw : List UInt8} {offset : Nat}

theorem putWord_length (inside : offset + 2 ≤ raw.length) (value : Nat) : (putWord raw offset value).length = raw.length := by
  unfold putWord
  rw [List.length_append, List.length_append, ByteOrder.toBytes_length, List.length_take, List.length_drop]
  omega

theorem wordAt_lt (raw : List UInt8) (offset : Nat) : wordAt raw offset < 65536 := by
  have bound := ByteOrder.fromBytes_lt (slice raw offset 2)
  have width : (slice raw offset 2).length ≤ 2 := List.length_take_le _ _
  exact Nat.lt_of_lt_of_le bound (Nat.pow_le_pow_right (by decide) width)

theorem putWord_wordAt (inside : offset + 2 ≤ raw.length) : putWord raw offset (wordAt raw offset) = raw := by
  have width : (slice raw offset 2).length = 2 := by
    unfold slice
    rw [List.length_take, List.length_drop]
    omega
  unfold putWord wordAt
  rw [ByteOrder.toBytes_fromBytes width, slice, List.append_assoc, ← List.drop_drop, List.take_append_drop, List.take_append_drop]

theorem wordAt_putWord (inside : offset + 2 ≤ raw.length) {value : Nat} (small : value < 65536) :
    wordAt (putWord raw offset value) offset = value := by
  unfold wordAt putWord
  rw [slice_append (by rw [List.length_take]; omega) (ByteOrder.toBytes_length _ _ _), ByteOrder.fromBytes_toBytes _ small]

theorem putWord_putWord (inside : offset + 2 ≤ raw.length) (first second : Nat) :
    putWord (putWord raw offset first) offset second = putWord raw offset second := by
  have front : (raw.take offset).length = offset := by
    rw [List.length_take]
    omega
  have middle : (raw.take offset ++ ByteOrder.big.toBytes 2 first).length = offset + 2 := by
    rw [List.length_append, front, ByteOrder.toBytes_length]
  unfold putWord
  rw [List.drop_left' middle, List.append_assoc (raw.take offset), List.take_left' front]

theorem putWord_front {front field rest : List UInt8} (place : front.length = offset) (width : field.length = 2) (value : Nat) :
    putWord (front ++ field ++ rest) offset value = front ++ ByteOrder.big.toBytes 2 value ++ rest := by
  have behind : (front ++ field ++ rest).drop (offset + 2) = rest := List.drop_left' (by rw [List.length_append, place, width])
  unfold putWord
  rw [behind, List.append_assoc front field, List.take_left' place]

theorem putWord_getElem? {i : Nat} (inside : offset + 2 ≤ raw.length) (outside : i < offset ∨ offset + 2 ≤ i) (value : Nat) :
    (putWord raw offset value)[i]? = raw[i]? := by
  have front : (raw.take offset).length = offset := by
    rw [List.length_take]
    omega
  have middle : (raw.take offset ++ ByteOrder.big.toBytes 2 value).length = offset + 2 := by
    rw [List.length_append, front, ByteOrder.toBytes_length]
  unfold putWord
  rcases outside with before | behind
  · rw [List.append_assoc, List.getElem?_append_left (by omega), List.getElem?_take, if_pos before]
  · rw [List.getElem?_append_right (by omega), middle, List.getElem?_drop]
    congr 1
    omega

theorem wordAt_other {other : Nat} (inside : offset + 2 ≤ raw.length) (apart : other + 2 ≤ offset ∨ offset + 2 ≤ other) (value : Nat) :
    wordAt (putWord raw offset value) other = wordAt raw other := by
  have same : slice (putWord raw offset value) other 2 = slice raw other 2 := by
    refine List.ext_getElem? fun i => ?_
    unfold slice
    rw [List.getElem?_take, List.getElem?_take]
    split
    · rw [List.getElem?_drop, List.getElem?_drop, putWord_getElem? inside (by omega)]
    · rfl
  unfold wordAt
  rw [same]

theorem putWord_field {i : Nat} (inside : offset + 2 ≤ raw.length) (low : offset ≤ i) (high : i < offset + 2) (value : Nat) :
    (putWord raw offset value)[i]? = (ByteOrder.big.toBytes 2 value)[i - offset]? := by
  have front : (raw.take offset).length = offset := by
    rw [List.length_take]
    omega
  unfold putWord
  rw [List.append_assoc, List.getElem?_append_right (by omega), front,
    List.getElem?_append_left (by rw [ByteOrder.toBytes_length]; omega)]

theorem putWord_comm {other : Nat} (apart : offset + 2 ≤ other) (within : other + 2 ≤ raw.length) (first second : Nat) :
    putWord (putWord raw offset first) other second = putWord (putWord raw other second) offset first := by
  have inside : offset + 2 ≤ raw.length := by omega
  have within' : other + 2 ≤ (putWord raw offset first).length := by rwa [putWord_length inside]
  have inside' : offset + 2 ≤ (putWord raw other second).length := by rwa [putWord_length within]
  refine List.ext_getElem? fun i => ?_
  by_cases here : offset ≤ i ∧ i < offset + 2
  · rw [putWord_getElem? within' (by omega), putWord_field inside here.1 here.2, putWord_field inside' here.1 here.2]
  · by_cases there : other ≤ i ∧ i < other + 2
    · rw [putWord_field within' there.1 there.2, putWord_getElem? inside' (by omega), putWord_field within there.1 there.2]
    · rw [putWord_getElem? within' (by omega), putWord_getElem? inside (by omega), putWord_getElem? inside' (by omega),
        putWord_getElem? within (by omega)]

theorem total_putWord (even : offset % 2 = 0) (inside : offset + 2 ≤ raw.length) {value : Nat} (small : value < 65536) :
    total (putWord raw offset value) = total (putWord raw offset 0) + value := by
  have front : (raw.take offset).length % 2 = 0 := by
    rw [List.length_take]
    omega
  have middle : ∀ v, (raw.take offset ++ ByteOrder.big.toBytes 2 v).length % 2 = 0 := by
    intro v
    rw [List.length_append, ByteOrder.toBytes_length]
    omega
  unfold putWord
  rw [total_append (middle _), total_append (middle _), total_append front, total_append front, total_word small, total_word (by decide)]
  omega

variable {front : List UInt8}

theorem checksum_field (before : front.length % 2 = 0) (even : offset % 2 = 0) (inside : offset + 2 ≤ raw.length) {value : Nat}
    (small : value < 65536) :
    checksum (front ++ putWord raw offset value) = 0 ↔
      (total (front ++ putWord raw offset 0) + value) % 65535 = 0 ∧ total (front ++ putWord raw offset 0) + value ≠ 0 := by
  rw [checksum_eq_zero, total_append before, total_append before, total_putWord even inside small, Nat.add_assoc]

theorem checksum_filled (before : front.length % 2 = 0) (even : offset % 2 = 0) (inside : offset + 2 ≤ raw.length) :
    checksum (front ++ putWord raw offset (checksum (front ++ putWord raw offset 0))) = 0 := by
  have bound := checksum_le (front ++ putWord raw offset 0)
  have remainder := checksum_add_mod (front ++ putWord raw offset 0)
  have sign := fold_eq_zero (total (front ++ putWord raw offset 0))
  rw [checksum_field before even inside (by omega)]
  refine ⟨remainder, ?_⟩
  rw [checksum_eq]
  omega

theorem checksum_filled_ones (before : front.length % 2 = 0) (even : offset % 2 = 0) (inside : offset + 2 ≤ raw.length)
    (zero : checksum (front ++ putWord raw offset 0) = 0) : checksum (front ++ putWord raw offset 65535) = 0 := by
  have remainder := checksum_add_mod (front ++ putWord raw offset 0)
  rw [checksum_field before even inside (by decide)]
  omega

theorem field_of_valid (before : front.length % 2 = 0) (even : offset % 2 = 0) (inside : offset + 2 ≤ raw.length)
    (valid : checksum (front ++ raw) = 0) (some' : total (front ++ putWord raw offset 0) ≠ 0) :
    wordAt raw offset = checksum (front ++ putWord raw offset 0) ∨
      checksum (front ++ putWord raw offset 0) = 0 ∧ wordAt raw offset = 65535 := by
  have word := wordAt_lt raw offset
  have remainder := checksum_add_mod (front ++ putWord raw offset 0)
  have bound := checksum_lt some'
  rw [← putWord_wordAt inside, checksum_field before even inside word] at valid
  omega

end

end FfnNgfw.OnesComplement
