import Mathlib.Data.Nat.Digits.Defs
import Mathlib.Tactic.Common

/-!
# Numbers in bytes

Unsigned numbers of a fixed width in either byte order, and what reading gives back of what
was written.
-/

namespace FfnNgfw

inductive ByteOrder where
  | little
  | big
  deriving DecidableEq

/-- `raw[offset:offset + size]` -/
def slice (raw : List UInt8) (offset size : Nat) : List UInt8 := (raw.drop offset).take size

theorem slice_append {front middle rest : List UInt8} {offset size : Nat} (before : front.length = offset)
    (width : middle.length = size) : slice (front ++ middle ++ rest) offset size = middle := by
  subst before width
  simp [slice, List.append_assoc]

theorem slice_drop (raw : List UInt8) (skipped offset size : Nat) :
    slice (raw.drop skipped) offset size = slice raw (skipped + offset) size := by
  unfold slice
  rw [List.drop_drop]

theorem slice_flatten (segments : List (List UInt8)) {k : Nat} (inside : k < segments.length) :
    slice segments.flatten ((segments.take k).map List.length).sum segments[k].length = segments[k] := by
  have split : segments.flatten = (segments.take k).flatten ++ segments[k] ++ (segments.drop (k + 1)).flatten := by
    rw [List.append_assoc, ← List.flatten_cons, List.getElem_cons_drop, ← List.flatten_append, List.take_append_drop]
  rw [split]
  exact slice_append List.length_flatten rfl

namespace ByteOrder

def arrange (order : ByteOrder) (raw : List UInt8) : List UInt8 :=
  match order with
  | little => raw
  | big => raw.reverse

def fromBytes (order : ByteOrder) (raw : List UInt8) : Nat := Nat.ofDigits 256 ((order.arrange raw).map UInt8.toNat)

def littleBytes : Nat → Nat → List UInt8
  | 0, _ => []
  | size + 1, value => UInt8.ofNat (value % 256) :: littleBytes size (value / 256)

def toBytes (order : ByteOrder) (size value : Nat) : List UInt8 := order.arrange (littleBytes size value)

theorem arrange_arrange (order : ByteOrder) (raw : List UInt8) : order.arrange (order.arrange raw) = raw := by
  cases order with
  | little => rfl
  | big => exact List.reverse_reverse raw

theorem littleBytes_length (size value : Nat) : (littleBytes size value).length = size := by
  induction size generalizing value with
  | zero => rfl
  | succ size ih => simp [littleBytes, ih]

theorem toBytes_length (order : ByteOrder) (size value : Nat) : (order.toBytes size value).length = size := by
  cases order with
  | little => exact littleBytes_length size value
  | big => exact (List.length_reverse).trans (littleBytes_length size value)

theorem ofDigits_littleBytes (size value : Nat) :
    Nat.ofDigits 256 ((littleBytes size value).map UInt8.toNat) = value % 256 ^ size := by
  induction size generalizing value with
  | zero => simp [littleBytes, Nat.mod_one]
  | succ size ih =>
    have least : (UInt8.ofNat (value % 256)).toNat = value % 256 := Nat.mod_mod value 256
    show Nat.ofDigits 256 (_ :: (littleBytes size (value / 256)).map UInt8.toNat) = _
    rw [Nat.ofDigits_cons, ih, least, Nat.pow_succ', Nat.mod_mul]

theorem fromBytes_toBytes (order : ByteOrder) {size value : Nat} (fits : value < 256 ^ size) :
    order.fromBytes (order.toBytes size value) = value := by
  unfold fromBytes toBytes
  rw [arrange_arrange, ofDigits_littleBytes, Nat.mod_eq_of_lt fits]

end ByteOrder

end FfnNgfw
