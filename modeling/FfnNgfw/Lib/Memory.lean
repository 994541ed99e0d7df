import Mathlib.Algebra.Group.Int.Defs
import Mathlib.Algebra.GroupWithZero.Nat
import Mathlib.Data.List.GetD
import Mathlib.Logic.Function.Basic
import Mathlib.Tactic.Common

/-!
# Byte memory

An address space is a function from addresses to bytes. Words are loaded and
stored byte by byte, in a fixed byte order, so that no result depends on the
byte order of the machine.
-/

namespace FfnNgfw

abbrev Mem := Nat → UInt8

namespace Mem

def ldLe16 (m : Mem) (p : Nat) : UInt16 :=
  (m p).toUInt16 ||| ((m (p + 1)).toUInt16 <<< 8)

def ldLe32 (m : Mem) (p : Nat) : UInt32 :=
  (m p).toUInt32 ||| ((m (p + 1)).toUInt32 <<< 8) ||| ((m (p + 2)).toUInt32 <<< 16) |||
    ((m (p + 3)).toUInt32 <<< 24)

def ldLe64 (m : Mem) (p : Nat) : UInt64 :=
  (ldLe32 m p).toUInt64 ||| ((ldLe32 m (p + 4)).toUInt64 <<< 32)

def ldBe16 (m : Mem) (p : Nat) : UInt16 :=
  ((m p).toUInt16 <<< 8) ||| (m (p + 1)).toUInt16

def ldBe32 (m : Mem) (p : Nat) : UInt32 :=
  ((m p).toUInt32 <<< 24) ||| ((m (p + 1)).toUInt32 <<< 16) ||| ((m (p + 2)).toUInt32 <<< 8) |||
    (m (p + 3)).toUInt32

def bytes (m : Mem) (p n : Nat) : List UInt8 := (List.range n).map (fun i => m (p + i))

def write (m : Mem) (p : Nat) (bs : List UInt8) : Mem :=
  fun a => if p ≤ a then bs.getD (a - p) (m a) else m a

def copy (m : Mem) (dst src n : Nat) : Mem :=
  fun a => if dst ≤ a ∧ a < dst + n then m (src + (a - dst)) else m a

def fill (m : Mem) (p : Nat) (v : UInt8) (n : Nat) : Mem :=
  fun a => if p ≤ a ∧ a < p + n then v else m a

end Mem

def le16 (v : UInt16) : List UInt8 := [v.toUInt8, (v >>> 8).toUInt8]

def le32 (v : UInt32) : List UInt8 :=
  [v.toUInt8, (v >>> 8).toUInt8, (v >>> 16).toUInt8, (v >>> 24).toUInt8]

def le64 (v : UInt64) : List UInt8 := le32 v.toUInt32 ++ le32 (v >>> 32).toUInt32

def be32 (v : UInt32) : List UInt8 :=
  [(v >>> 24).toUInt8, (v >>> 16).toUInt8, (v >>> 8).toUInt8, v.toUInt8]

namespace Mem

def stLe16 (m : Mem) (p : Nat) (v : UInt16) : Mem := m.write p (le16 v)
def stLe32 (m : Mem) (p : Nat) (v : UInt32) : Mem := m.write p (le32 v)
def stLe64 (m : Mem) (p : Nat) (v : UInt64) : Mem := m.write p (le64 v)

theorem or_shiftLeft (a k b : Nat) (small : a < 2 ^ k) : a ||| b <<< k = a + 2 ^ k * b := by
  rw [Nat.or_comm, ← Nat.shiftLeft_add_eq_or_of_lt small, Nat.shiftLeft_eq, Nat.mul_comm, Nat.add_comm]

theorem toNat_byte_shiftLeft32 (b : UInt8) (k : UInt32) (small : k.toNat ≤ 24) :
    (b.toUInt32 <<< k).toNat = b.toNat <<< k.toNat := by
  have hb := b.toNat_lt
  have hk : 2 ^ k.toNat ≤ 2 ^ 24 := Nat.pow_le_pow_right (by omega) small
  have bound : b.toNat * 2 ^ k.toNat ≤ 255 * 2 ^ 24 := Nat.mul_le_mul (by omega) hk
  rw [UInt32.toNat_shiftLeft, UInt8.toNat_toUInt32, Nat.mod_eq_of_lt (show k.toNat < 32 by omega),
    Nat.mod_eq_of_lt (by rw [Nat.shiftLeft_eq]; omega)]

theorem toNat_ldLe16 (m : Mem) (p : Nat) :
    (ldLe16 m p).toNat = (m p).toNat + 2 ^ 8 * (m (p + 1)).toNat := by
  have h0 := (m p).toNat_lt
  have h1 := (m (p + 1)).toNat_lt
  simp only [ldLe16, UInt16.toNat_or, UInt16.toNat_shiftLeft, UInt8.toNat_toUInt16]
  rw [show (8 : UInt16).toNat % 16 = 8 from rfl,
    Nat.mod_eq_of_lt (show (m (p + 1)).toNat <<< 8 < 2 ^ 16 by rw [Nat.shiftLeft_eq]; omega),
    or_shiftLeft _ _ _ h0]

theorem toNat_ldLe32 (m : Mem) (p : Nat) :
    (ldLe32 m p).toNat = (m p).toNat + 2 ^ 8 * (m (p + 1)).toNat + 2 ^ 16 * (m (p + 2)).toNat +
      2 ^ 24 * (m (p + 3)).toNat := by
  have h0 := (m p).toNat_lt
  have h1 := (m (p + 1)).toNat_lt
  have h2 := (m (p + 2)).toNat_lt
  simp only [ldLe32, UInt32.toNat_or, UInt8.toNat_toUInt32]
  rw [toNat_byte_shiftLeft32 _ 8 (by decide), toNat_byte_shiftLeft32 _ 16 (by decide),
    toNat_byte_shiftLeft32 _ 24 (by decide)]
  simp only [UInt32.reduceToNat]
  rw [or_shiftLeft _ 8 _ h0, or_shiftLeft _ 16 _ (by omega), or_shiftLeft _ 24 _ (by omega)]

theorem toNat_ldBe32 (m : Mem) (p : Nat) :
    (ldBe32 m p).toNat = 2 ^ 24 * (m p).toNat + 2 ^ 16 * (m (p + 1)).toNat +
      2 ^ 8 * (m (p + 2)).toNat + (m (p + 3)).toNat := by
  have h1 := (m (p + 1)).toNat_lt
  have h2 := (m (p + 2)).toNat_lt
  have h3 := (m (p + 3)).toNat_lt
  simp only [ldBe32, UInt32.toNat_or, UInt8.toNat_toUInt32]
  rw [toNat_byte_shiftLeft32 _ 24 (by decide), toNat_byte_shiftLeft32 _ 16 (by decide),
    toNat_byte_shiftLeft32 _ 8 (by decide)]
  simp only [UInt32.reduceToNat]
  rw [show ∀ a b c d : Nat, a ||| b ||| c ||| d = d ||| c ||| b ||| a by
      intros; ac_rfl,
    or_shiftLeft _ 8 _ h3, or_shiftLeft _ 16 _ (by omega), or_shiftLeft _ 24 _ (by omega)]
  omega

theorem toNat_ldLe64 (m : Mem) (p : Nat) :
    (ldLe64 m p).toNat = (ldLe32 m p).toNat + 2 ^ 32 * (ldLe32 m (p + 4)).toNat := by
  have h0 := (ldLe32 m p).toNat_lt
  have h1 := (ldLe32 m (p + 4)).toNat_lt
  simp only [ldLe64, UInt64.toNat_or, UInt64.toNat_shiftLeft, UInt32.toNat_toUInt64]
  rw [show (32 : UInt64).toNat % 64 = 32 from rfl,
    Nat.mod_eq_of_lt (show (ldLe32 m (p + 4)).toNat <<< 32 < 2 ^ 64 by rw [Nat.shiftLeft_eq]; omega),
    or_shiftLeft _ _ _ h0]

/-! ### Stores -/

section stores

variable (m : Mem) (p : Nat) (bs : List UInt8)

theorem write_below {a : Nat} (h : a < p) : m.write p bs a = m a := by
  simp [write, Nat.not_le.mpr h]

theorem write_above {a : Nat} (h : p + bs.length ≤ a) : m.write p bs a = m a := by
  simp only [write]
  split
  · rw [List.getD_eq_getElem?_getD, List.getElem?_eq_none (by omega), Option.getD_none]
  · rfl

theorem write_outside {a : Nat} (h : a < p ∨ p + bs.length ≤ a) : m.write p bs a = m a :=
  h.elim (write_below m p bs) (write_above m p bs)

theorem write_inside {i : Nat} (h : i < bs.length) : m.write p bs (p + i) = bs.getD i 0 := by
  simp [write, List.getD_eq_getElem?_getD, List.getElem?_eq_getElem h]

theorem write_append (xs ys : List UInt8) : (m.write p xs).write (p + xs.length) ys = m.write p (xs ++ ys) := by
  funext a
  unfold write
  by_cases later : p + xs.length ≤ a
  · rw [if_pos later, if_pos (by omega), if_pos (by omega), List.getD_append_right _ _ _ _ (by omega),
      List.getD_eq_default xs _ (by omega)]
    congr 1
    omega
  · rw [if_neg later]
    by_cases inside : p ≤ a
    · rw [if_pos inside, if_pos inside, List.getD_append _ _ _ _ (by omega)]
    · rw [if_neg inside, if_neg inside]

theorem fill_outside (v : UInt8) (n : Nat) {a : Nat} (h : a < p ∨ p + n ≤ a) :
    m.fill p v n a = m a := by
  simp only [fill]
  rw [if_neg (by omega)]

theorem copy_inside (src n : Nat) {i : Nat} (h : i < n) : m.copy p src n (p + i) = m (src + i) := by
  simp only [copy]
  rw [if_pos (by omega), Nat.add_sub_cancel_left]

theorem copy_outside (src n : Nat) {a : Nat} (h : a < p ∨ p + n ≤ a) :
    m.copy p src n a = m a := by
  simp only [copy]
  rw [if_neg (by omega)]

end stores

theorem ldLe16_congr {m m' : Mem} {p q : Nat} (h : ∀ i < 2, m (p + i) = m' (q + i)) :
    ldLe16 m p = ldLe16 m' q := by
  simp only [ldLe16, ← h 1 (by omega), show m p = m' q from h 0 (by omega)]

theorem ldLe32_congr {m m' : Mem} {p q : Nat} (h : ∀ i < 4, m (p + i) = m' (q + i)) :
    ldLe32 m p = ldLe32 m' q := by
  simp only [ldLe32, ← h 1 (by omega), ← h 2 (by omega), ← h 3 (by omega),
    show m p = m' q from h 0 (by omega)]

theorem ldLe64_congr {m m' : Mem} {p q : Nat} (h : ∀ i < 8, m (p + i) = m' (q + i)) :
    ldLe64 m p = ldLe64 m' q := by
  have low : ldLe32 m p = ldLe32 m' q := ldLe32_congr fun i hi => h i (by omega)
  have high : ldLe32 m (p + 4) = ldLe32 m' (q + 4) := by
    apply ldLe32_congr
    intro i hi
    rw [Nat.add_assoc, Nat.add_assoc]
    exact h (4 + i) (by omega)
  rw [ldLe64, ldLe64, low, high]

theorem bytes_congr {m m' : Mem} {p q n : Nat} (h : ∀ i < n, m (p + i) = m' (q + i)) :
    m.bytes p n = m'.bytes q n := by
  simp only [bytes]
  exact List.map_congr_left fun i hi => h i (List.mem_range.mp hi)

theorem map_rows_succ {α : Type} (f : Nat → α) (p width n : Nat) :
    (List.range (n + 1)).map (fun i => f (p + i * width)) =
      f p :: (List.range n).map fun i => f (p + width + i * width) := by
  rw [List.range_succ_eq_map, List.map_cons, List.map_map, Nat.zero_mul, Nat.add_zero, List.cons.injEq]
  refine ⟨rfl, List.map_congr_left fun i _ => ?_⟩
  rw [Function.comp_apply, Nat.succ_mul, Nat.add_comm (i * width), ← Nat.add_assoc]

/-! ### A load returns what was stored -/

/-- The bytes `bs` stand at `p`. -/
def At (m : Mem) (p : Nat) (bs : List UInt8) : Prop := ∀ i < bs.length, m (p + i) = bs.getD i 0

theorem at_write (m : Mem) (p : Nat) (bs : List UInt8) : At (m.write p bs) p bs :=
  fun _ hi => write_inside m p bs hi

theorem at_append {m : Mem} {p : Nat} {xs ys : List UInt8} :
    At m p (xs ++ ys) ↔ At m p xs ∧ At m (p + xs.length) ys := by
  constructor
  · intro h
    refine ⟨fun i hi => ?_, fun i hi => ?_⟩
    · rw [h i (by rw [List.length_append]; omega), List.getD_append _ _ _ _ hi]
    · rw [Nat.add_assoc, h (xs.length + i) (by rw [List.length_append]; omega),
        List.getD_append_right _ _ _ _ (by omega), Nat.add_sub_cancel_left]
  · rintro ⟨left, right⟩ i hi
    rw [List.length_append] at hi
    by_cases inLeft : i < xs.length
    · rw [left i inLeft, List.getD_append _ _ _ _ inLeft]
    · have there := right (i - xs.length) (by omega)
      rw [show p + xs.length + (i - xs.length) = p + i by omega] at there
      rw [there, List.getD_append_right _ _ _ _ (by omega)]

theorem at_congr {m m' : Mem} {p q : Nat} {bs : List UInt8} (h : At m p bs)
    (same : ∀ i < bs.length, m' (q + i) = m (p + i)) : At m' q bs :=
  fun i hi => (same i hi).trans (h i hi)

theorem bytes_of_at {m : Mem} {p : Nat} {bs : List UInt8} (h : At m p bs) :
    m.bytes p bs.length = bs := by
  apply List.ext_getElem (by simp [bytes])
  intro i hi _
  simp only [bytes, List.length_map, List.length_range] at hi
  simp [bytes, h i hi, List.getElem?_eq_getElem hi]

theorem ldLe16_of_at {m : Mem} {p : Nat} {v : UInt16} (h : At m p (le16 v)) : ldLe16 m p = v := by
  have h0 : (m p).toNat = v.toUInt8.toNat := congrArg _ (h 0 (by simp [le16]))
  have h1 : (m (p + 1)).toNat = (v >>> 8).toUInt8.toNat := congrArg _ (h 1 (by simp [le16]))
  have hv := v.toNat_lt
  simp [Nat.shiftRight_eq_div_pow] at h0 h1
  apply UInt16.toNat_inj.mp
  rw [toNat_ldLe16]
  omega

theorem ldLe32_of_at {m : Mem} {p : Nat} {v : UInt32} (h : At m p (le32 v)) : ldLe32 m p = v := by
  have h0 : (m p).toNat = v.toUInt8.toNat := congrArg _ (h 0 (by simp [le32]))
  have h1 : (m (p + 1)).toNat = (v >>> 8).toUInt8.toNat := congrArg _ (h 1 (by simp [le32]))
  have h2 : (m (p + 2)).toNat = (v >>> 16).toUInt8.toNat := congrArg _ (h 2 (by simp [le32]))
  have h3 : (m (p + 3)).toNat = (v >>> 24).toUInt8.toNat := congrArg _ (h 3 (by simp [le32]))
  have hv := v.toNat_lt
  simp [Nat.shiftRight_eq_div_pow] at h0 h1 h2 h3
  apply UInt32.toNat_inj.mp
  rw [toNat_ldLe32]
  omega

theorem ldBe32_of_at {m : Mem} {p : Nat} {v : UInt32} (h : At m p (be32 v)) : ldBe32 m p = v := by
  have h0 : (m p).toNat = (v >>> 24).toUInt8.toNat := congrArg _ (h 0 (by simp [be32]))
  have h1 : (m (p + 1)).toNat = (v >>> 16).toUInt8.toNat := congrArg _ (h 1 (by simp [be32]))
  have h2 : (m (p + 2)).toNat = (v >>> 8).toUInt8.toNat := congrArg _ (h 2 (by simp [be32]))
  have h3 : (m (p + 3)).toNat = v.toUInt8.toNat := congrArg _ (h 3 (by simp [be32]))
  have hv := v.toNat_lt
  simp [Nat.shiftRight_eq_div_pow] at h0 h1 h2 h3
  apply UInt32.toNat_inj.mp
  rw [toNat_ldBe32]
  omega

theorem ldLe64_of_at {m : Mem} {p : Nat} {v : UInt64} (h : At m p (le64 v)) : ldLe64 m p = v := by
  obtain ⟨low, high⟩ := at_append.mp h
  change At m (p + 4) _ at high
  have hv := v.toNat_lt
  apply UInt64.toNat_inj.mp
  rw [toNat_ldLe64, ldLe32_of_at low, ldLe32_of_at high]
  simp [Nat.shiftRight_eq_div_pow]
  omega

def writeAll (m : Mem) : List (Nat × List UInt8) → Mem
  | [] => m
  | (p, bs) :: ws => writeAll (m.write p bs) ws

def Apart (w w' : Nat × List UInt8) : Prop := w.1 + w.2.length ≤ w'.1 ∨ w'.1 + w'.2.length ≤ w.1

theorem writeAll_outside {m : Mem} {ws : List (Nat × List UInt8)} {a : Nat}
    (outside : ∀ w ∈ ws, a < w.1 ∨ w.1 + w.2.length ≤ a) : writeAll m ws a = m a := by
  induction ws generalizing m with
  | nil => rfl
  | cons w ws ih =>
    rw [writeAll, ih fun w' member => outside w' (List.mem_cons_of_mem w member)]
    exact write_outside m w.1 w.2 (outside w List.mem_cons_self)

theorem writeAll_at {m : Mem} {ws : List (Nat × List UInt8)} (apart : ws.Pairwise Apart) :
    ∀ w ∈ ws, At (writeAll m ws) w.1 w.2 := by
  induction ws generalizing m with
  | nil => simp
  | cons w ws ih =>
    obtain ⟨first, rest⟩ := List.pairwise_cons.mp apart
    intro w' member
    rcases List.mem_cons.mp member with rfl | later
    · refine at_congr (at_write m w'.1 w'.2) fun i inside => ?_
      rw [writeAll]
      refine writeAll_outside fun other later => ?_
      rcases first other later with left | right
      · exact Or.inl (by omega)
      · exact Or.inr (by omega)
    · exact ih rest w' later

theorem word_ext_iff (x y : UInt32) :
    x = y ↔ x.toUInt8 = y.toUInt8 ∧ (x >>> 8).toUInt8 = (y >>> 8).toUInt8 ∧
      (x >>> 16).toUInt8 = (y >>> 16).toUInt8 ∧ (x >>> 24).toUInt8 = (y >>> 24).toUInt8 := by
  have hx := x.toNat_lt
  have hy := y.toNat_lt
  simp only [← UInt32.toNat_inj, ← UInt8.toNat_inj, UInt32.toNat_toUInt8, UInt32.toNat_shiftRight,
    Nat.shiftRight_eq_div_pow, UInt32.reduceToNat, Nat.reduceMod, Nat.reducePow]
  omega

theorem ldBe32_bytes (m : Mem) (p : Nat) :
    (ldBe32 m p).toUInt8 = m (p + 3) ∧ (ldBe32 m p >>> 8).toUInt8 = m (p + 2) ∧
      (ldBe32 m p >>> 16).toUInt8 = m (p + 1) ∧ (ldBe32 m p >>> 24).toUInt8 = m p := by
  have h0 := (m p).toNat_lt
  have h1 := (m (p + 1)).toNat_lt
  have h2 := (m (p + 2)).toNat_lt
  have h3 := (m (p + 3)).toNat_lt
  simp only [← UInt8.toNat_inj, UInt32.toNat_toUInt8, UInt32.toNat_shiftRight, Nat.shiftRight_eq_div_pow,
    UInt32.reduceToNat, Nat.reduceMod, Nat.reducePow, toNat_ldBe32]
  omega

theorem ldLe32_bytes (m : Mem) (p : Nat) :
    (ldLe32 m p).toUInt8 = m p ∧ (ldLe32 m p >>> 8).toUInt8 = m (p + 1) ∧
      (ldLe32 m p >>> 16).toUInt8 = m (p + 2) ∧ (ldLe32 m p >>> 24).toUInt8 = m (p + 3) := by
  have h0 := (m p).toNat_lt
  have h1 := (m (p + 1)).toNat_lt
  have h2 := (m (p + 2)).toNat_lt
  have h3 := (m (p + 3)).toNat_lt
  simp only [← UInt8.toNat_inj, UInt32.toNat_toUInt8, UInt32.toNat_shiftRight, Nat.shiftRight_eq_div_pow,
    UInt32.reduceToNat, Nat.reduceMod, Nat.reducePow, toNat_ldLe32]
  omega

theorem ldBe32_eq_ldLe32_iff (m : Mem) (p : Nat) :
    ldBe32 m p = ldLe32 m p ↔ m p = m (p + 3) ∧ m (p + 1) = m (p + 2) := by
  obtain ⟨b3, b2, b1, b0⟩ := ldBe32_bytes m p
  obtain ⟨l0, l1, l2, l3⟩ := ldLe32_bytes m p
  rw [word_ext_iff, b3, b2, b1, b0, l0, l1, l2, l3]
  grind

theorem ldBe32_and_eq_iff (m : Mem) (p q : Nat) :
    ldBe32 m p &&& ldBe32 m q = ldLe32 m p &&& ldLe32 m q ↔
      m p &&& m q = m (p + 3) &&& m (q + 3) ∧ m (p + 1) &&& m (q + 1) = m (p + 2) &&& m (q + 2) := by
  have shift (x y k : UInt32) : (x &&& y) >>> k = x >>> k &&& y >>> k := UInt32.shiftRight_and
  obtain ⟨b3, b2, b1, b0⟩ := ldBe32_bytes m p
  obtain ⟨l0, l1, l2, l3⟩ := ldLe32_bytes m p
  obtain ⟨c3, c2, c1, c0⟩ := ldBe32_bytes m q
  obtain ⟨k0, k1, k2, k3⟩ := ldLe32_bytes m q
  rw [word_ext_iff]
  simp only [shift, UInt32.toUInt8_and, b0, b1, b2, b3, c0, c1, c2, c3, l0, l1, l2, l3, k0, k1, k2, k3]
  grind

end Mem
end FfnNgfw
