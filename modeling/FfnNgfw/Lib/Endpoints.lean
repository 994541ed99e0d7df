import Mathlib.Data.Sym.Sym2
import Mathlib.Order.Basic

/-!
# Ordering the two ends of a conversation

A key for both directions of a conversation is made by putting its two ends in an
order. The order is read off a rank: with equal ranks the ends stay as they are, so
the pair forgets the direction exactly where the rank tells the two ends apart.
-/

namespace FfnNgfw

variable {α β : Type} [LinearOrder β]

def sortEnds (rank : α → β) (a b : α) : α × α := if rank a ≤ rank b then (a, b) else (b, a)

namespace SortEnds

variable {rank : α → β} {a b c d : α}

theorem of_le (ordered : rank a ≤ rank b) : sortEnds rank a b = (a, b) := if_pos ordered

theorem of_lt (turned : rank b < rank a) : sortEnds rank a b = (b, a) := if_neg turned.not_ge

theorem sortEnds_mem (rank : α → β) (a b : α) : sortEnds rank a b = (a, b) ∨ sortEnds rank a b = (b, a) := by
  unfold sortEnds
  split
  · exact .inl rfl
  · exact .inr rfl

theorem ends_eq (h : sortEnds rank a b = sortEnds rank c d) : s(a, b) = s(c, d) := by
  rw [Sym2.eq_iff]
  rcases sortEnds_mem rank a b with first | first <;> rcases sortEnds_mem rank c d with second | second
  all_goals
    rw [first, second, Prod.mk.injEq] at h
    obtain ⟨one, other⟩ := h
    simp [one, other]

theorem symm_iff : sortEnds rank a b = sortEnds rank b a ↔ rank a ≠ rank b ∨ a = b := by
  rcases lt_trichotomy (rank a) (rank b) with less | tie | more
  · rw [of_le less.le, of_lt less]
    exact iff_of_true rfl (.inl less.ne)
  · rw [of_le tie.le, of_le tie.ge]
    simp only [Prod.mk.injEq, ne_eq, tie, not_true, false_or]
    exact ⟨And.left, fun same => ⟨same, same.symm⟩⟩
  · rw [of_lt more, of_le more.le]
    exact iff_of_true rfl (.inl more.ne')

theorem eq_iff (apart : Function.Injective rank) : sortEnds rank a b = sortEnds rank c d ↔ s(a, b) = s(c, d) := by
  refine ⟨ends_eq, fun same => ?_⟩
  rcases Sym2.eq_iff.mp same with ⟨rfl, rfl⟩ | ⟨rfl, rfl⟩
  · rfl
  · apply symm_iff.mpr
    by_cases tie : rank a = rank b
    · exact .inr (apart tie)
    · exact .inl tie

end SortEnds
end FfnNgfw
