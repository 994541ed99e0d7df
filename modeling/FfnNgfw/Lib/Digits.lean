import FfnNgfw.Lib.Bytes
import Mathlib.Data.Int.ModEq
import Mathlib.Data.Nat.Digits.Lemmas
import Mathlib.Tactic.Common
import Mathlib.Tactic.Ring

/-!
# Digits

A number as a list of digits of a fixed width, the most significant one first. Its bytes
and its 16-bit words are two such lists, and their sums are congruent to the number.
-/

namespace FfnNgfw

namespace Digits

variable {base : Nat} {ds es : List Nat}

def value (base : Nat) (ds : List Nat) : Nat := Nat.ofDigits base ds.reverse

theorem value_nil (base : Nat) : value base [] = 0 := Nat.ofDigits_nil

theorem value_append (base : Nat) (ds es : List Nat) : value base (ds ++ es) = value base ds * base ^ es.length + value base es := by
  unfold value
  rw [List.reverse_append, Nat.ofDigits_append, List.length_reverse]
  ring

theorem value_singleton (base d : Nat) : value base [d] = d := Nat.ofDigits_singleton

theorem value_cons (base d : Nat) (ds : List Nat) : value base (d :: ds) = d * base ^ ds.length + value base ds := by
  rw [← List.singleton_append, value_append, value_singleton]

theorem value_lt (large : 1 < base) (small : ∀ d ∈ ds, d < base) : value base ds < base ^ ds.length := by
  have bound := Nat.ofDigits_lt_base_pow_length (l := ds.reverse) large fun d member => small d (List.mem_reverse.mp member)
  rwa [List.length_reverse] at bound

theorem value_inj (large : 1 < base) (length : ds.length = es.length) (small : ∀ d ∈ ds, d < base) (small' : ∀ d ∈ es, d < base)
    (same : value base ds = value base es) : ds = es := by
  have reversed : ds.reverse = es.reverse := by
    refine Nat.ofDigits_inj_of_len_eq large ?_ ?_ ?_ same
    · rw [List.length_reverse, List.length_reverse, length]
    · exact fun d member => small d (List.mem_reverse.mp member)
    · exact fun d member => small' d (List.mem_reverse.mp member)
  exact List.reverse_injective reversed

theorem value_modEq_sum {modulus : Nat} (one : base % modulus = 1 % modulus) (ds : List Nat) : value base ds ≡ ds.sum [MOD modulus] := by
  have swapped := Nat.ofDigits_modEq' base 1 modulus one ds.reverse
  rwa [Nat.ofDigits_one, List.sum_reverse] at swapped

theorem value_set {i : Nat} (inside : i < ds.length) (d : Nat) :
    value base (ds.set i d) + ds[i] * base ^ (ds.length - 1 - i) = value base ds + d * base ^ (ds.length - 1 - i) := by
  have parts : ds = ds.take i ++ ds[i] :: ds.drop (i + 1) := by
    rw [List.getElem_cons_drop, List.take_append_drop]
  have after : ds.set i d = ds.take i ++ d :: ds.drop (i + 1) := List.set_eq_take_append_cons_drop.trans (if_pos inside)
  have width : (ds.drop (i + 1)).length = ds.length - 1 - i := by
    rw [List.length_drop]
    omega
  have before : value base ds = value base (ds.take i ++ ds[i] :: ds.drop (i + 1)) := congrArg (value base) parts
  rw [after, before, value_append, value_append, value_cons, value_cons, List.length_cons, List.length_cons, width]
  ring

theorem value_take (large : 1 < base) (small : ∀ d ∈ ds, d < base) (k : Nat) :
    value base ds / base ^ (ds.length - k) = value base (ds.take k) := by
  have rest : value base (ds.drop k) < base ^ (ds.length - k) := by
    have bound := value_lt large fun d (member : d ∈ ds.drop k) => small d (List.mem_of_mem_drop member)
    rwa [List.length_drop] at bound
  have parts := value_append base (ds.take k) (ds.drop k)
  rw [List.take_append_drop, List.length_drop] at parts
  rw [parts, Nat.mul_comm, Nat.mul_add_div (Nat.pow_pos (by omega)), Nat.div_eq_of_lt rest, Nat.add_zero]

theorem value_digit (large : 1 < base) (small : ∀ d ∈ ds, d < base) {i : Nat} (inside : i < ds.length) :
    value base ds / base ^ (ds.length - 1 - i) % base = ds[i] := by
  have leading := value_take large small (i + 1)
  have power : ds.length - (i + 1) = ds.length - 1 - i := by omega
  rw [power, List.take_add_one, List.getElem?_eq_getElem inside, Option.toList_some, value_append, value_singleton,
    List.length_singleton, Nat.pow_one] at leading
  rw [leading, Nat.mul_add_mod_self_right, Nat.mod_eq_of_lt (small _ (List.getElem_mem inside))]

end Digits

theorem byte_lt (raw : List UInt8) : ∀ d ∈ raw.map UInt8.toNat, d < 256 := by
  intro d member
  obtain ⟨b, -, rfl⟩ := List.mem_map.mp member
  exact b.toNat_lt

namespace ByteOrder

theorem fromBytes_big (raw : List UInt8) : big.fromBytes raw = Digits.value 256 (raw.map UInt8.toNat) := by
  unfold fromBytes Digits.value arrange
  rw [List.map_reverse]

theorem fromBytes_lt (raw : List UInt8) : big.fromBytes raw < 256 ^ raw.length := by
  have bound := Digits.value_lt (by decide) (byte_lt raw)
  rwa [List.length_map, ← fromBytes_big] at bound

theorem fromBytes_append (a b : List UInt8) : big.fromBytes (a ++ b) = big.fromBytes a * 256 ^ b.length + big.fromBytes b := by
  rw [fromBytes_big, List.map_append, Digits.value_append, List.length_map, ← fromBytes_big, ← fromBytes_big]

theorem fromBytes_inj {a b : List UInt8} (length : a.length = b.length) (same : big.fromBytes a = big.fromBytes b) : a = b := by
  rw [fromBytes_big, fromBytes_big] at same
  have digits := Digits.value_inj (by decide) (by simpa using length) (byte_lt a) (byte_lt b) same
  exact List.map_injective_iff.mpr (fun x y => UInt8.toNat_inj.mp) digits

theorem toBytes_fromBytes {raw : List UInt8} {size : Nat} (length : raw.length = size) : big.toBytes size (big.fromBytes raw) = raw := by
  subst length
  exact fromBytes_inj (toBytes_length _ _ _) (fromBytes_toBytes _ (fromBytes_lt raw))

theorem fromBytes_digit {raw : List UInt8} {i : Nat} (inside : i < raw.length) :
    big.fromBytes raw / 256 ^ (raw.length - 1 - i) % 256 = (raw.getD i 0).toNat := by
  have digit := Digits.value_digit (by decide) (byte_lt raw) (by simpa using inside)
  simp only [List.length_map, List.getElem_map, ← fromBytes_big] at digit
  rw [digit, List.getD_eq_getElem?_getD, List.getElem?_eq_getElem inside, Option.getD_some]

theorem fromBytes_take (raw : List UInt8) (k : Nat) : big.fromBytes raw / 256 ^ (raw.length - k) = big.fromBytes (raw.take k) := by
  have leading := Digits.value_take (by decide) (byte_lt raw) k
  rwa [← List.map_take, ← fromBytes_big, ← fromBytes_big, List.length_map] at leading

end ByteOrder

/-! ### Words of two bytes -/

/-- `struct.unpack('!%dH')` -/
def unpackWords : List UInt8 → List Nat
  | hi :: lo :: rest => (256 * hi.toNat + lo.toNat) :: unpackWords rest
  | _ => []

/-- `struct.pack('!%dH')` -/
def packWords (ws : List Nat) : List UInt8 := ws.flatMap (ByteOrder.big.toBytes 2)

section words

attribute [local simp] unpackWords

theorem unpackWords_lt (raw : List UInt8) : ∀ w ∈ unpackWords raw, w < 65536 := by
  induction raw using unpackWords.induct with
  | case1 hi lo rest ih =>
    intro w member
    rcases List.mem_cons.mp member with rfl | later
    · have a := hi.toNat_lt
      have b := lo.toNat_lt
      omega
    · exact ih w later
  | case2 raw short =>
    intro w member
    rw [unpackWords.eq_2 raw short] at member
    cases member

theorem unpackWords_length (raw : List UInt8) : (unpackWords raw).length = raw.length / 2 := by
  induction raw using unpackWords.induct with
  | case1 hi lo rest ih =>
    rw [unpackWords, List.length_cons, ih]
    simp only [List.length_cons]
    omega
  | case2 raw short =>
    rw [unpackWords.eq_2 raw short]
    cases raw with
    | nil => rfl
    | cons hi rest =>
      cases rest with
      | nil => simp
      | cons lo rest => exact absurd rfl (short hi lo rest)

theorem unpackWords_append {front : List UInt8} (even : front.length % 2 = 0) (rest : List UInt8) :
    unpackWords (front ++ rest) = unpackWords front ++ unpackWords rest := by
  induction front using unpackWords.induct with
  | case1 hi lo front ih =>
    simp only [List.length_cons] at even
    rw [List.cons_append, List.cons_append, unpackWords, unpackWords, ih (by omega), List.cons_append]
  | case2 front short =>
    cases front with
    | nil => rfl
    | cons hi front =>
      cases front with
      | nil => cases even
      | cons lo front => exact absurd rfl (short hi lo front)

theorem value_unpackWords {raw : List UInt8} (even : raw.length % 2 = 0) :
    Digits.value 65536 (unpackWords raw) = ByteOrder.big.fromBytes raw := by
  induction raw using unpackWords.induct with
  | case1 hi lo rest ih =>
    simp only [List.length_cons] at even
    have first : ByteOrder.big.fromBytes [hi, lo] = 256 * hi.toNat + lo.toNat := by
      rw [ByteOrder.fromBytes_big]
      simp only [List.map_cons, List.map_nil, Digits.value_cons, Digits.value_nil, List.length_cons, List.length_nil]
      omega
    have split : hi :: lo :: rest = [hi, lo] ++ rest := rfl
    have width : (65536 : Nat) ^ (rest.length / 2) = 256 ^ rest.length := by
      have square : (65536 : Nat) = 256 ^ 2 := rfl
      rw [square, ← Nat.pow_mul]
      congr 1
      omega
    rw [unpackWords, Digits.value_cons, unpackWords_length, width, ih (by omega), split, ByteOrder.fromBytes_append, first]
  | case2 raw short =>
    cases raw with
    | nil => rfl
    | cons hi rest =>
      cases rest with
      | nil => cases even
      | cons lo rest => exact absurd rfl (short hi lo rest)

theorem packWords_length (ws : List Nat) : (packWords ws).length = 2 * ws.length := by
  induction ws with
  | nil => rfl
  | cons w ws ih =>
    unfold packWords at *
    rw [List.flatMap_cons, List.length_append, ih, ByteOrder.toBytes_length, List.length_cons]
    omega

theorem unpackWords_word {w : Nat} (small : w < 65536) : unpackWords (ByteOrder.big.toBytes 2 w) = [w] := by
  have bytes : ByteOrder.big.toBytes 2 w = [UInt8.ofNat (w / 256 % 256), UInt8.ofNat (w % 256)] := rfl
  rw [bytes]
  simp only [unpackWords, UInt8.toNat_ofNat', List.cons.injEq, and_true]
  omega

theorem unpackWords_packWords {ws : List Nat} (small : ∀ w ∈ ws, w < 65536) : unpackWords (packWords ws) = ws := by
  induction ws with
  | nil => rfl
  | cons w ws ih =>
    have parts : packWords (w :: ws) = ByteOrder.big.toBytes 2 w ++ packWords ws := List.flatMap_cons
    rw [List.forall_mem_cons] at small
    have even : (ByteOrder.big.toBytes 2 w).length % 2 = 0 := by rw [ByteOrder.toBytes_length]
    rw [parts, unpackWords_append even, unpackWords_word small.1, ih small.2, List.singleton_append]

theorem fromBytes_packWords {ws : List Nat} (small : ∀ w ∈ ws, w < 65536) :
    ByteOrder.big.fromBytes (packWords ws) = Digits.value 65536 ws := by
  have even : (packWords ws).length % 2 = 0 := by
    rw [packWords_length]
    omega
  rw [← value_unpackWords even, unpackWords_packWords small]

end words

end FfnNgfw

/-!
## Powers to a modulus

Square and multiply, from the lowest bit of the exponent on, and that it is the remainder of
the power.
-/

namespace FfnNgfw

/-- `x ^ e % m`, for an exponent of at most `bits` bits. -/
def powMod (m : Nat) : Nat → Nat → Nat → Nat
  | 0, _, _ => 1 % m
  | bits + 1, x, e =>
    if e = 0 then 1 % m
    else
      let rest := powMod m bits (x * x % m) (e / 2)
      if e % 2 = 1 then x * rest % m else rest

theorem powMod_eq {m bits e : Nat} (x : Nat) (fits : e < 2 ^ bits) : powMod m bits x e = x ^ e % m := by
  induction bits generalizing x e with
  | zero =>
    obtain rfl : e = 0 := by omega
    rw [powMod, Nat.pow_zero]
  | succ bits ih =>
    rw [powMod]
    split
    · next zero => rw [zero, Nat.pow_zero]
    have half : (x * x % m) ^ (e / 2) % m = x ^ (2 * (e / 2)) % m := by
      rw [← Nat.pow_mod, Nat.pow_mul, Nat.pow_two]
    rw [ih _ (by omega), half]
    split
    · next odd =>
      conv_rhs => rw [show e = 2 * (e / 2) + 1 by omega, Nat.pow_succ, Nat.mul_comm, Nat.mul_mod]
      rw [Nat.mul_mod, Nat.mod_mod]
    · next even => rw [show 2 * (e / 2) = e by omega]

end FfnNgfw
