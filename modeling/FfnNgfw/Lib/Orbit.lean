import Mathlib.Data.Fintype.Pigeonhole

/-!
# Orbits of a partial step

A loop that moves from place to place, and ends where there is no next place. Among
finitely many places it ends exactly when it never comes back to a place it has
passed, and then within as many steps as there are places.
-/

namespace FfnNgfw

section orbit

variable {α : Type} (step : α → Option α)

/-- Where the loop is after `n` steps from `start`, `none` when it has ended. -/
def orbit (start : α) : Nat → Option α
  | 0 => some start
  | n + 1 => (orbit start n).bind step

def NeverBack (start : α) : Prop := ∀ i j a, i < j → orbit step start i = some a → orbit step start j ≠ some a

variable {step} {start : α}

theorem orbit_add (i k : Nat) : orbit step start (i + k) = (orbit step start i).bind fun a => orbit step a k := by
  induction k with
  | zero => exact (Option.bind_fun_some _).symm
  | succ k ih =>
    rw [← Nat.add_assoc, orbit, ih, Option.bind_assoc]
    rfl

theorem orbit_succ_head (n : Nat) : orbit step start (n + 1) = (step start).bind fun a => orbit step a n := by
  rw [Nat.add_comm, orbit_add]
  rfl

theorem orbit_before {i j : Nat} (le : i ≤ j) {a : α} (there : orbit step start j = some a) :
    ∃ b, orbit step start i = some b := by
  obtain ⟨k, rfl⟩ := Nat.exists_eq_add_of_le le
  rw [orbit_add] at there
  obtain ⟨b, here, _⟩ := Option.bind_eq_some_iff.mp there
  exact ⟨b, here⟩

theorem orbit_back {i j : Nat} {a : α} (lt : i < j) (here : orbit step start i = some a)
    (again : orbit step start j = some a) (n : Nat) : ∃ b, orbit step start n = some b := by
  obtain ⟨k, rfl⟩ := Nat.exists_eq_add_of_lt lt
  have round : orbit step a (k + 1) = some a := by
    rw [Nat.add_assoc, orbit_add, here] at again
    exact again
  have rounds (r : Nat) : orbit step a (r * (k + 1)) = some a := by
    induction r with
    | zero => rw [Nat.zero_mul, orbit]
    | succ r ih => rw [Nat.succ_mul, orbit_add, ih, Option.bind_some, round]
  have far : orbit step start (i + n * (k + 1)) = some a := by
    rw [orbit_add, here, Option.bind_some, rounds]
  refine orbit_before ?_ far
  calc n = n * 1 := (Nat.mul_one n).symm
    _ ≤ n * (k + 1) := Nat.mul_le_mul_left n (by omega)
    _ ≤ i + n * (k + 1) := Nat.le_add_left _ _

end orbit

theorem orbit_ends {step : Nat → Option Nat} {start size : Nat}
    (bounded : ∀ k o, orbit step start k = some o → o ≤ size) (fresh : NeverBack step start) :
    orbit step start (size + 1) = none := by
  by_contra running
  obtain ⟨last, there⟩ := Option.ne_none_iff_exists'.mp running
  have place (i : Fin (size + 2)) : ∃ o : Fin (size + 1), orbit step start i = some o.val := by
    obtain ⟨o, here⟩ := orbit_before (Nat.le_of_lt_succ i.isLt) there
    exact ⟨⟨o, Nat.lt_succ_of_le (bounded i o here)⟩, here⟩
  choose at_ here using place
  obtain ⟨i, j, different, same⟩ := Fintype.exists_ne_map_eq_of_card_lt at_ (by simp)
  have again : orbit step start i = orbit step start j := by rw [here i, here j, same]
  rcases Nat.lt_or_gt_of_ne (Fin.val_ne_of_ne different) with before | after
  · exact fresh i j _ before (here i) (again ▸ here i)
  · exact fresh j i _ after (here j) (again.symm ▸ here j)

theorem orbit_lt {step : Nat → Option Nat} {start : Nat}
    (forward : ∀ k a b, orbit step start k = some a → step a = some b → a < b) {i j a b : Nat} (lt : i < j)
    (here : orbit step start i = some a) (there : orbit step start j = some b) : a < b := by
  obtain ⟨k, rfl⟩ := Nat.exists_eq_add_of_lt lt
  induction k generalizing b with
  | zero =>
    rw [Nat.add_zero, orbit, here] at there
    exact forward i a b here there
  | succ k ih =>
    obtain ⟨c, before, last⟩ := Option.bind_eq_some_iff.mp there
    exact Nat.lt_trans (ih (by omega) before) (forward _ c b before last)

theorem neverBack_of_forward {step : Nat → Option Nat} {start : Nat}
    (forward : ∀ k a b, orbit step start k = some a → step a = some b → a < b) : NeverBack step start := by
  intro i j a lt here again
  exact Nat.lt_irrefl a (orbit_lt forward lt here again)

theorem orbit_ends_iff {step : Nat → Option Nat} {start size : Nat}
    (bounded : ∀ k o, orbit step start k = some o → o ≤ size) :
    orbit step start (size + 1) = none ↔ NeverBack step start := by
  refine ⟨fun ended i j a lt here again => ?_, orbit_ends bounded⟩
  obtain ⟨b, running⟩ := orbit_back lt here again (size + 1)
  rw [running] at ended
  cases ended

end FfnNgfw
