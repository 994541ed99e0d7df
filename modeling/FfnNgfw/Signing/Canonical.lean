import FfnNgfw.Lib.Digits

/-!
# Signatures of updates

Ed25519 in plain integers: points of the curve in extended coordinates, their encoding in 32
bytes, and the check of a signature. SHA-512 is given. An exception ends the check with no.
-/

namespace FfnNgfw.Signing

abbrev Bytes := List UInt8

/-! ### Curve parameters -/

def Q : Nat := 2 ^ 255 - 19

def L : Nat := 2 ^ 252 + 27742317777372353535851937790883648493

/-- `pow(x, e, Q)`; every exponent is below `Q`. -/
def pow (x : Int) (e : Nat) : Int := powMod Q 255 (x % Q).toNat e

def inv (x : Int) : Int := pow x (Q - 2)

def D : Int := -121665 * pow 121666 (Q - 2) % Q

def I : Int := pow 2 ((Q - 1) / 4)

def evenRoot (x : Int) : Int := if x % 2 ≠ 0 then Q - x else x

def squareRoot (xx : Int) : Int :=
  let x := pow xx ((Q + 3) / 8)
  if (x * x - xx) % Q ≠ 0 then x * I % Q else x

def xrecover (y : Int) : Int :=
  let xx := (y * y - 1) * inv (D * y * y + 1)
  evenRoot (squareRoot xx)

/-! ### Points -/

structure Point where
  x : Int
  y : Int
  z : Int
  t : Int
  deriving DecidableEq

def By : Int := 4 * inv 5 % Q

def Bx : Int := xrecover By

def base : Point := ⟨Bx % Q, By % Q, 1, Bx * By % Q⟩

def add (P P' : Point) : Point :=
  let a := (P.y - P.x) * (P'.y - P'.x) % Q
  let b := (P.y + P.x) * (P'.y + P'.x) % Q
  let c := P.t * 2 * D * P'.t % Q
  let d := P.z * 2 * P'.z % Q
  let e := b - a
  let f := d - c
  let g := d + c
  let h := b + a
  ⟨e * f % Q, g * h % Q, f * g % Q, e * h % Q⟩

def double (P : Point) : Point :=
  let a := P.x * P.x % Q
  let b := P.y * P.y % Q
  let c := 2 * P.z * P.z % Q
  let h := (a + b) % Q
  let e := (h - (P.x + P.y) * (P.x + P.y)) % Q
  let g := (a - b) % Q
  let f := (c + g) % Q
  ⟨e * f % Q, g * h % Q, f * g % Q, e * h % Q⟩

/-- One bit of the exponent: `bin(e)[2:]` from the left. -/
def scalarStep (P R : Point) (bit : Bool) : Point := if bit then add (double R) P else double R

def scalarmult (P : Point) (e : Nat) : Point :=
  ((List.range e.size).reverse.map e.testBit).foldl (scalarStep P) ⟨0, 1, 1, 0⟩

def affine (P : Point) : Int × Int :=
  let zi := inv P.z
  (P.x * zi % Q, P.y * zi % Q)

def onCurve (P : Point) : Bool :=
  let (x, y) := affine P
  (-x * x + y * y - 1 - D * x * x * y * y) % Q = 0

def encodePoint (P : Point) : Bytes :=
  let (x, y) := affine P
  ByteOrder.little.toBytes 32 (y.toNat ||| ((x.toNat &&& 1) <<< 255))

/-- `int.from_bytes(s, "little") & ~(1 << 255)` -/
def ordinate (s : Bytes) : Nat :=
  let n := ByteOrder.little.fromBytes s
  if n.testBit 255 then n - 2 ^ 255 else n

/-- `(s[31] >> 7) & 1` -/
def signBit (s : Bytes) : Nat := (s.getD 31 0).toNat >>> 7 &&& 1

def decodePoint (s : Bytes) : Option Point :=
  if s.length ≤ 31 then none
  else
    let y : Int := ordinate s
    let x := xrecover y
    let x := if x % 2 ≠ signBit s then Q - x else x
    let P : Point := ⟨x, y, 1, x * y % Q⟩
    if onCurve P then some P else none

def verify (sha512 : Bytes → Bytes) (msg sig pub : Bytes) : Bool :=
  if sig.length ≠ 64 ∨ pub.length ≠ 32 then false
  else
    match decodePoint (sig.take 32), decodePoint pub with
    | some R, some A =>
      let s := ByteOrder.little.fromBytes (sig.drop 32)
      if L ≤ s then false
      else
        let k := ByteOrder.little.fromBytes (sha512 (sig.take 32 ++ pub ++ msg)) % L
        affine (scalarmult base s) = affine (add R (scalarmult A k))
    | _, _ => false

end FfnNgfw.Signing

/-!
## Which encodings are canonical

Decoding takes any ordinate below 2^255 and any sign for a point on the axis; what is decoded
is encoded as it was exactly when the ordinate is reduced and the sign belongs to the point.
-/

namespace FfnNgfw.Signing

/-- A reduced ordinate, and no sign on the two points with `x = 0`. -/
structure Plain (s : Bytes) : Prop where
  reduced : ordinate s < Q
  unsigned : ¬ (signBit s = 1 ∧ ordinate s * ordinate s % Q = 1)

/-! ### Powers and roots -/

theorem Q_pos : 0 < Q := by decide

theorem pow_eq (x : Int) {e : Nat} (fits : e < 2 ^ 255) : pow x e = ((x % Q).toNat ^ e % Q : Nat) :=
  congrArg Nat.cast (powMod_eq _ fits)

theorem pow_range (x : Int) {e : Nat} (fits : e < 2 ^ 255) : 0 ≤ pow x e ∧ pow x e < Q := by
  rw [pow_eq x fits]
  exact ⟨Int.natCast_nonneg _, Int.ofNat_lt.mpr (Nat.mod_lt _ Q_pos)⟩

theorem pow_zero {x : Int} {e : Nat} (zero : x % Q = 0) (fits : e < 2 ^ 255) (some' : 0 < e) : pow x e = 0 := by
  have nothing : (x % Q).toNat ^ e % Q = 0 := by rw [zero, Int.toNat_zero, Nat.zero_pow some', Nat.zero_mod]
  rw [pow_eq x fits, nothing, Int.natCast_zero]

theorem pow_one {x : Int} {e : Nat} (one : x % Q = 1) (fits : e < 2 ^ 255) : pow x e = 1 := by
  have small : 1 % Q = 1 := by decide
  rw [pow_eq x fits, one, Int.toNat_one, Nat.one_pow, small, Int.natCast_one]

theorem inv_one : inv 1 = 1 := by
  unfold inv
  exact pow_one (by decide) (by decide)

theorem squareRoot_range (xx : Int) : 0 ≤ squareRoot xx ∧ squareRoot xx < Q := by
  have positive : (0 : Int) < Q := by decide
  unfold squareRoot
  dsimp only
  split
  · exact ⟨Int.emod_nonneg _ positive.ne', Int.emod_lt_of_pos _ positive⟩
  · exact pow_range xx (by decide)

theorem squareRoot_zero {xx : Int} (zero : xx % Q = 0) : squareRoot xx = 0 := by
  have nothing : pow xx ((Q + 3) / 8) = 0 := pow_zero zero (by decide) (by decide)
  unfold squareRoot
  dsimp only
  rw [nothing, Int.mul_zero, Int.zero_sub, if_neg (not_not.mpr ?_)]
  exact Int.emod_eq_zero_of_dvd ((Int.dvd_of_emod_eq_zero zero).neg_right)

theorem xrecover_range (y : Int) : 0 ≤ xrecover y ∧ xrecover y < Q ∧ xrecover y % 2 = 0 := by
  have odd : (Q : Int) % 2 = 1 := by decide
  obtain ⟨low, high⟩ := squareRoot_range ((y * y - 1) * inv (D * y * y + 1))
  unfold xrecover evenRoot
  dsimp only
  split <;> omega

theorem xrecover_axis {y : Int} (axis : y * y % Q = 1) : xrecover y = 0 := by
  have zero : (y * y - 1) * inv (D * y * y + 1) % Q = 0 := by
    have divides : (Q : Int) ∣ y * y - 1 := Int.dvd_of_emod_eq_zero (Int.emod_eq_emod_iff_emod_sub_eq_zero.mp axis)
    exact Int.emod_eq_zero_of_dvd (Dvd.dvd.mul_right divides _)
  unfold xrecover
  dsimp only
  rw [squareRoot_zero zero]
  rfl

variable {s : Bytes}

theorem little_reverse (s : Bytes) : ByteOrder.little.fromBytes s = ByteOrder.big.fromBytes s.reverse := by
  simp [ByteOrder.fromBytes, ByteOrder.arrange]

theorem little_inj {a b : Bytes} (length : a.length = b.length) (same : ByteOrder.little.fromBytes a = ByteOrder.little.fromBytes b) :
    a = b := by
  rw [little_reverse, little_reverse] at same
  exact List.reverse_injective (ByteOrder.fromBytes_inj (by simpa using length) same)

theorem little_lt (width : s.length = 32) : ByteOrder.little.fromBytes s < 2 ^ 256 := by
  have bound := ByteOrder.fromBytes_lt s.reverse
  rwa [← little_reverse, List.length_reverse, width, show (256 : Nat) ^ 32 = 2 ^ 256 by decide] at bound

theorem signBit_eq (width : s.length = 32) : signBit s = ByteOrder.little.fromBytes s / 2 ^ 255 := by
  have inside : 0 < s.reverse.length := by simp [width]
  have digit := ByteOrder.fromBytes_digit inside
  have last : s.reverse.getD 0 0 = s.getD 31 0 := by
    rw [List.getD_eq_getElem?_getD, List.getD_eq_getElem?_getD, List.getElem?_reverse (by omega), width]
  rw [← little_reverse, List.length_reverse, width, last, show (256 : Nat) ^ (32 - 1 - 0) = 2 ^ 248 by decide] at digit
  have bound := little_lt width
  have small := (s.getD 31 0).toNat_lt
  rw [signBit, Nat.shiftRight_eq_div_pow, Nat.and_one_is_mod, ← digit]
  generalize ByteOrder.little.fromBytes s = n at *
  have high : n / 2 ^ 248 < 256 := by
    rw [Nat.div_lt_iff_lt_mul (by decide)]
    exact bound
  rw [Nat.mod_eq_of_lt high, Nat.div_div_eq_div_mul, show (2 : Nat) ^ 248 * 2 ^ 7 = 2 ^ 255 by decide]
  apply Nat.mod_eq_of_lt
  rw [Nat.div_lt_iff_lt_mul (by decide)]
  exact bound

theorem ordinate_eq (width : s.length = 32) : ordinate s = ByteOrder.little.fromBytes s % 2 ^ 255 := by
  have bound := little_lt width
  unfold ordinate
  dsimp only
  generalize ByteOrder.little.fromBytes s = n at *
  rw [Nat.testBit_eq_decide_div_mod_eq]
  by_cases high : 2 ^ 255 ≤ n
  · have one : n / 2 ^ 255 = 1 := by
      apply Nat.div_eq_of_lt_le
      · simpa using high
      · exact bound
    rw [one, if_pos (by decide), Nat.mod_eq_sub_mod high, Nat.mod_eq_of_lt]
    have : (2 : Nat) ^ 256 = 2 ^ 255 + 2 ^ 255 := by decide
    omega
  · have low := Nat.lt_of_not_le high
    rw [Nat.div_eq_of_lt low, if_neg (by decide), Nat.mod_eq_of_lt low]

theorem fromBytes_parts (width : s.length = 32) : ByteOrder.little.fromBytes s = ordinate s + signBit s * 2 ^ 255 := by
  rw [ordinate_eq width, signBit_eq width, Nat.mul_comm]
  exact (Nat.mod_add_div _ _).symm

theorem ordinate_lt (width : s.length = 32) : ordinate s < 2 ^ 255 := by
  rw [ordinate_eq width]
  exact Nat.mod_lt _ (by decide)

theorem signBit_lt (s : Bytes) : signBit s < 2 := by
  rw [signBit, Nat.and_one_is_mod]
  exact Nat.mod_lt _ (by decide)

/-! ### What is decoded -/

def decodedX (s : Bytes) : Int := if xrecover (ordinate s) % 2 ≠ signBit s then Q - xrecover (ordinate s) else xrecover (ordinate s)

theorem affine_unit (x y t : Int) : affine ⟨x, y, 1, t⟩ = (x % Q, y % Q) := by
  simp only [affine, inv_one, Int.mul_one]

theorem decodePoint_some {P : Point} (decoded : decodePoint s = some P) :
    affine P = (decodedX s % Q, (ordinate s : Int) % Q) ∧ onCurve P := by
  unfold decodePoint at decoded
  split at decoded
  · cases decoded
  change (if onCurve ⟨decodedX s, ordinate s, 1, decodedX s * ordinate s % Q⟩ then some _ else none) = some P at decoded
  split at decoded
  · next good =>
    cases decoded
    exact ⟨affine_unit _ _ _, good⟩
  · cases decoded

theorem decodedX_sign (s : Bytes) :
    (decodedX s % Q).toNat % 2 = signBit s ↔ ¬ (signBit s = 1 ∧ xrecover (ordinate s) = 0) := by
  have odd : (Q : Int) % 2 = 1 := by decide
  have bit := signBit_lt s
  obtain ⟨low, high, even⟩ := xrecover_range (ordinate s)
  unfold decodedX
  generalize xrecover (ordinate s) = x at *
  generalize signBit s = sign at *
  generalize (Q : Int) = q at *
  by_cases zero : x = 0
  · subst zero
    by_cases set : sign = 1
    · subst set
      simp
    · obtain rfl : sign = 0 := by omega
      simp
  · by_cases set : sign = 1
    · subst set
      rw [if_pos (by omega), Int.emod_eq_of_lt (by omega) (by omega)]
      omega
    · obtain rfl : sign = 0 := by omega
      rw [if_neg (by omega), Int.emod_eq_of_lt low high]
      omega

theorem decoded_axis {P : Point} (decoded : decodePoint s = some P) :
    xrecover (ordinate s) = 0 ↔ ordinate s * ordinate s % Q = 1 := by
  constructor
  · intro zero
    obtain ⟨coordinates, curve⟩ := decodePoint_some decoded
    have x : decodedX s % Q = 0 := by
      unfold decodedX
      rw [zero]
      split
      · rw [Int.sub_zero, Int.emod_self]
      · rfl
    unfold onCurve at curve
    rw [coordinates, x] at curve
    simp only [Int.neg_zero, Int.zero_mul, Int.mul_zero, Int.zero_add, Int.sub_zero, decide_eq_true_eq] at curve
    have square := Int.emod_eq_emod_iff_emod_sub_eq_zero.mpr curve
    rw [← Int.mul_emod] at square
    have one : (1 : Int) % Q = 1 := by decide
    rw [one] at square
    exact_mod_cast square
  · intro one
    exact xrecover_axis (by exact_mod_cast one)

theorem encodePoint_value {P : Point} {x y : Int} (coordinates : affine P = (x, y)) (small : y.toNat < 2 ^ 255) :
    (encodePoint P).length = 32 ∧ ByteOrder.little.fromBytes (encodePoint P) = y.toNat + x.toNat % 2 * 2 ^ 255 := by
  unfold encodePoint
  rw [coordinates]
  dsimp only
  refine ⟨ByteOrder.toBytes_length _ _ _, ?_⟩
  have value : y.toNat ||| (x.toNat &&& 1) <<< 255 = y.toNat + x.toNat % 2 * 2 ^ 255 := by
    rw [Nat.and_one_is_mod, Nat.shiftLeft_eq, Nat.or_comm, Nat.mul_comm, ← Nat.two_pow_add_eq_or_of_lt small, Nat.add_comm]
  have bit := Nat.mod_lt x.toNat (by decide : 0 < 2)
  rw [value, ByteOrder.fromBytes_toBytes]
  rw [show (256 : Nat) ^ 32 = 2 ^ 255 + 2 ^ 255 by decide]
  generalize x.toNat % 2 = b at *
  generalize (2 : Nat) ^ 255 = w at *
  have : b * w ≤ 1 * w := Nat.mul_le_mul_right w (by omega)
  omega

theorem encode_decoded {P : Point} (width : s.length = 32) (decoded : decodePoint s = some P) :
    encodePoint P = s ↔ Plain s := by
  obtain ⟨coordinates, -⟩ := decodePoint_some decoded
  have reduced : ((ordinate s : Int) % Q).toNat = ordinate s % Q := by
    rw [← Int.natCast_emod, Int.toNat_natCast]
  have below : ordinate s % Q < 2 ^ 255 := (Nat.mod_lt _ Q_pos).trans (by decide)
  obtain ⟨length, value⟩ := encodePoint_value coordinates (by rwa [reduced])
  rw [reduced] at value
  have whole := fromBytes_parts width
  have low := ordinate_lt width
  have sign := signBit_lt s
  have bit := Nat.mod_lt (decodedX s % Q).toNat (by decide : 0 < 2)
  have same : encodePoint P = s ↔ ordinate s % Q = ordinate s ∧ (decodedX s % Q).toNat % 2 = signBit s := by
    rw [show encodePoint P = s ↔ ByteOrder.little.fromBytes (encodePoint P) = ByteOrder.little.fromBytes s from
      ⟨congrArg _, little_inj (length.trans width.symm)⟩, value, whole]
    generalize (decodedX s % Q).toNat % 2 = b at *
    generalize ordinate s % Q = r at *
    generalize ordinate s = y at *
    generalize signBit s = c at *
    omega
  rw [same, decodedX_sign, decoded_axis decoded]
  constructor
  · intro ⟨mod, unsigned⟩
    exact ⟨mod ▸ Nat.mod_lt _ Q_pos, unsigned⟩
  · intro plain
    exact ⟨Nat.mod_eq_of_lt plain.reduced, plain.unsigned⟩

theorem plain_inj {s' : Bytes} {P P' : Point} (width : s.length = 32) (width' : s'.length = 32) (decoded : decodePoint s = some P)
    (decoded' : decodePoint s' = some P') (plain : Plain s) (plain' : Plain s') (same : affine P = affine P') : s = s' := by
  have encoded : encodePoint P = encodePoint P' := by rw [encodePoint, encodePoint, same]
  rw [← (encode_decoded width decoded).mpr plain, ← (encode_decoded width' decoded').mpr plain', encoded]

theorem verify_decodes {sha512 : Bytes → Bytes} {msg sig pub : Bytes} (accepted : verify sha512 msg sig pub) :
    sig.length = 64 ∧ pub.length = 32 ∧ (∃ R, decodePoint (sig.take 32) = some R) ∧ ∃ A, decodePoint pub = some A := by
  unfold verify at accepted
  split at accepted
  · cases accepted
  next widths =>
  simp only [not_or, ne_eq, not_not] at widths
  split at accepted
  · next R A first second => exact ⟨widths.1, widths.2, ⟨R, first⟩, A, second⟩
  · cases accepted

def Distinct (s s' : Bytes) : Prop := ∃ P P', decodePoint s = some P ∧ decodePoint s' = some P' ∧ affine P ≠ affine P'

/-- Decoding is canonical on the plain strings and on no other that is accepted; different plain keys, and
different plain first halves of signatures, stand for different points. -/
theorem canonical_iff (sha512 : Bytes → Bytes) :
    (∀ s, s.length = 32 → ((∀ P, decodePoint s = some P → encodePoint P = s) ↔ ((decodePoint s).isSome → Plain s))) ∧
      ∀ msg sig pub msg' sig' pub', verify sha512 msg sig pub → verify sha512 msg' sig' pub' →
        (Plain pub → Plain pub' → pub ≠ pub' → Distinct pub pub') ∧
          (Plain (sig.take 32) → Plain (sig'.take 32) → sig.take 32 ≠ sig'.take 32 → Distinct (sig.take 32) (sig'.take 32)) := by
  constructor
  · intro s width
    constructor
    · intro canonical accepted
      obtain ⟨P, decoded⟩ := Option.isSome_iff_exists.mp accepted
      exact (encode_decoded width decoded).mp (canonical P decoded)
    · intro plain P decoded
      exact (encode_decoded width decoded).mpr (plain (decoded ▸ rfl))
  · intro msg sig pub msg' sig' pub' accepted accepted'
    obtain ⟨width, key, ⟨R, first⟩, A, second⟩ := verify_decodes accepted
    obtain ⟨width', key', ⟨R', first'⟩, A', second'⟩ := verify_decodes accepted'
    constructor
    · intro plain plain' differ
      exact ⟨A, A', second, second', fun same => differ (plain_inj key key' second second' plain plain' same)⟩
    · intro plain plain' differ
      have half : (sig.take 32).length = 32 := by rw [List.length_take, width]; rfl
      have half' : (sig'.take 32).length = 32 := by rw [List.length_take, width']; rfl
      exact ⟨R, R', first, first', fun same => differ (plain_inj half half' first first' plain plain' same)⟩

/-- The ordinate `Q` itself. -/
def unreducedZero : Bytes := [0xed] ++ List.replicate 30 0xff ++ [0x7f]

/-- It is taken, and encoded as zero. -/
theorem unreduced_accepted : ¬ ∀ s, s.length = 32 → ∀ P, decodePoint s = some P → encodePoint P = s := by
  intro canonical
  have accepted : (decodePoint unreducedZero).map encodePoint = some (List.replicate 32 0) := by decide +kernel
  obtain ⟨P, decoded, encoded⟩ := Option.map_eq_some_iff.mp accepted
  have same := canonical unreducedZero rfl P decoded
  rw [encoded] at same
  exact absurd same (by decide)

end FfnNgfw.Signing
