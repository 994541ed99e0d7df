import Mathlib.Tactic.Common

/-!
# Masked words

A prefix match compares a word with a value under a mask. The words that match
determine the mask and the masked value.
-/

namespace FfnNgfw

theorem xor_twoPow_and {w : Nat} (x m : BitVec w) (i : Nat) (outside : m.getLsbD i = false) :
    (x ^^^ BitVec.twoPow w i) &&& m = x &&& m := by
  apply BitVec.eq_of_getLsbD_eq
  intro j hj
  simp only [BitVec.getLsbD_and, BitVec.getLsbD_xor, BitVec.getLsbD_twoPow]
  by_cases same : i = j
  · subst same; simp [outside]
  · simp [same]

theorem xor_twoPow_and_ne {w : Nat} (x m : BitVec w) (i : Nat) (inside : m.getLsbD i = true) :
    (x ^^^ BitVec.twoPow w i) &&& m ≠ x &&& m := by
  have hi : i < w := BitVec.lt_of_getLsbD inside
  intro h
  have bit := congrArg (fun y => y.getLsbD i) h
  simp only [BitVec.getLsbD_and, BitVec.getLsbD_xor, BitVec.getLsbD_twoPow, inside, hi, decide_true,
    Bool.and_self, Bool.and_true, Bool.bne_true] at bit
  cases hx : x.getLsbD i <;> simp [hx] at bit

theorem mask_subset {w : Nat} {m v m' v' : BitVec w}
    (h : ∀ x, x &&& m = v &&& m ↔ x &&& m' = v' &&& m') {i : Nat} (bit : m.getLsbD i = true) :
    m'.getLsbD i = true := by
  by_contra clear
  have right : v &&& m' = v' &&& m' := (h v).mp rfl
  have flipped := xor_twoPow_and v m' i (by simpa using clear)
  exact xor_twoPow_and_ne v m i bit ((h _).mpr (flipped.trans right))

/-- Two masked comparisons accept the same words exactly when their masks and
their masked values are the same. -/
theorem masked_eq_iff {w : Nat} (m v m' v' : BitVec w) :
    (∀ x, x &&& m = v &&& m ↔ x &&& m' = v' &&& m') ↔ m = m' ∧ v &&& m = v' &&& m' := by
  constructor
  · intro h
    have masks : m = m' := by
      apply BitVec.eq_of_getLsbD_eq
      intro i _
      rw [Bool.eq_iff_iff]
      exact ⟨mask_subset h, mask_subset fun x => (h x).symm⟩
    subst masks
    exact ⟨rfl, (h v).mp rfl⟩
  · rintro ⟨rfl, value⟩ x
    rw [value]

end FfnNgfw
