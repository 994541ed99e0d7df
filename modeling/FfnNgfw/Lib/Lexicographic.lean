import Mathlib.Data.List.Lex
import Mathlib.Order.Lattice
import Mathlib.Tactic.Common

/-!
# Words in lexicographic order

What stands between a word and an extension of it is an extension too, and in a sorted list
of words the extensions of one of them follow it at once.
-/

namespace FfnNgfw

variable {α : Type} [LinearOrder α] {a x v : List α} {s : α}

theorem extension_of_between (lower : a < x) (upper : ¬ a ++ s :: v < x) : ∃ c w, x = a ++ c :: w ∧ c ≤ s := by
  induction a generalizing x with
  | nil =>
    cases x with
    | nil => exact absurd lower (lt_irrefl _)
    | cons c w =>
      refine ⟨c, w, rfl, le_of_not_gt fun above => upper ?_⟩
      exact List.cons_lt_cons_iff.mpr (.inl above)
  | cons first a ih =>
    cases x with
    | nil => exact absurd lower (List.not_lt_nil _)
    | cons c w =>
      rw [List.cons_lt_cons_iff] at lower
      rw [List.cons_append, List.cons_lt_cons_iff, not_or, not_and] at upper
      obtain ⟨same, under⟩ := lower.resolve_left upper.1
      subst same
      obtain ⟨d, w', rfl, below⟩ := ih under (upper.2 rfl)
      exact ⟨d, w', rfl, below⟩

theorem lt_extension (a : List α) (s : α) (v : List α) : a < a ++ s :: v := by
  induction a with
  | nil => exact List.nil_lt_cons s v
  | cons first a ih => exact List.cons_lt_cons_iff.mpr (.inr ⟨rfl, ih⟩)

theorem successor_extends {l : List (List α)} (sorted : l.Pairwise (· < ·)) (here : a ∈ l) (later : a ++ s :: v ∈ l) :
    ∃ front c w rest, l = front ++ a :: (a ++ c :: w) :: rest ∧ c ≤ s := by
  obtain ⟨front, rest, rfl⟩ := List.append_of_mem here
  obtain ⟨-, tail, before⟩ := List.pairwise_append.mp sorted
  obtain ⟨after, tail⟩ := List.pairwise_cons.mp tail
  have longer := lt_extension a s v
  have there : a ++ s :: v ∈ rest := by
    rcases List.mem_append.mp later with early | other
    · exact absurd (before _ early a List.mem_cons_self) longer.not_gt
    · exact (List.mem_cons.mp other).resolve_left longer.ne'
  cases rest with
  | nil => cases there
  | cons next rest =>
    have upper : ¬ a ++ s :: v < next := by
      rcases List.mem_cons.mp there with same | there
      · exact same ▸ lt_irrefl _
      · exact ((List.pairwise_cons.mp tail).1 _ there).not_gt
    obtain ⟨c, w, rfl, below⟩ := extension_of_between (after next List.mem_cons_self) upper
    exact ⟨front, c, w, rest, rfl, below⟩

end FfnNgfw
